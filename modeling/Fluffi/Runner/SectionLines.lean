import Fluffi.Runner.InfoFiles

/-! One line of the answer to `info files`: which sections are read as they were printed, and what
reading any line can do. -/

namespace Fluffi.Runner.Gdb

open Shared Systems

/-! ### One section line -/

open InfoFilesParser

theorem find_eq (line : Line) (text : String) : find line text = findFirst text.toList line := rfl

theorem contains_iff (line : Line) (text : String) :
    contains line text = true ↔ text.toList <:+: line :=
  findFirst_isSome_iff

/-- A character that is in no address. -/
theorem notMem_addressText {c : Char} (hdigit : hexDigit c = none) (hx : c ≠ 'x') (width : ℕ)
    (address : UInt64) : c ∉ addressText width address := by
  have h0 : c ≠ '0' := by
    rintro rfl
    revert hdigit
    decide
  have := notMem_zeroFilled width address.toNat hdigit
  simp [addressText, h0, hx, this]

theorem stoull16_addressText {blanks rest : Line} (hblanks : ∀ c ∈ blanks, isSpace c)
    (width : ℕ) (address : UInt64) (hrest : NoDigit rest) :
    stoull16 (blanks ++ (addressText width address ++ rest)) = some address := by
  rw [addressText, stoull16_prefixed hblanks width address.toNat_lt hrest, UInt64.ofNat_toNat]

theorem behindMinus_append {u : Line} (h : '-' ∉ u) (v : Line) :
    behindMinus (u ++ '-' :: v) = v := by
  rw [behindMinus, idxOf?_append_cons h]
  simp

namespace Section

variable (s : Section) (indent : Line) (width : ℕ)

/-- The addresses and the `is` behind them. -/
def addressesText : Line :=
  addressText width s.start ++ " - ".toList ++ addressText width s.stop ++ " is".toList

/-- What stands behind `is ` after the end of the line is trimmed. -/
def namesRead : Line := trimEnd isSpace s.names

theorem text_eq : s.text indent width = indent ++ (s.addressesText width ++ ' ' :: s.names) := by
  simp [text, addressesText]

theorem trim_text (hindent : ∀ c ∈ indent, isSpace c = true) :
    trim isSpace (s.text indent width) = s.addressesText width ++
      if s.namesRead = [] then [] else ' ' :: s.namesRead := by
  have hdrop : (s.text indent width).dropWhile isSpace =
      s.addressesText width ++ ' ' :: s.names := by
    rw [text_eq, List.dropWhile_append_of_pos hindent]
    simp only [addressesText, addressText, List.append_assoc]
    exact List.dropWhile_cons_of_neg (by decide)
  have hend : s.addressesText width =
      addressText width s.start ++ " - ".toList ++ addressText width s.stop ++ " i".toList ++
        ['s'] := by
    simp [addressesText]
  rw [trim, hdrop, hend, List.append_assoc, List.singleton_append,
    trimEnd_append_cons _ (by decide), trimEnd_cons_of_blank (by decide), ← List.singleton_append,
    ← List.append_assoc, namesRead]

/-- The first `is ` of a trimmed line is the one that was printed. -/
theorem find_is (rest : Line) :
    find (s.addressesText width ++ rest) "is " = findFirst "is ".toList ("is".toList ++ rest) := by
  have hi : 'i' ∉ addressText width s.start ++ " - ".toList ++ addressText width s.stop ++
      [' '] := by
    have h : ∀ address, 'i' ∉ addressText width address :=
      notMem_addressText (by decide) (by decide) width
    simp [h]
  have hsplit : s.addressesText width ++ rest = (addressText width s.start ++ " - ".toList ++
      addressText width s.stop ++ [' ']) ++ ("is".toList ++ rest) := by
    simp [addressesText]
  rw [find_eq, hsplit]
  exact findFirst_append_of_notMem hi _

theorem stoull16_start (rest : Line) :
    stoull16 (s.addressesText width ++ rest) = some s.start := by
  have h := @stoull16_addressText [] (" - ".toList ++ addressText width s.stop ++ " is".toList ++
    rest) (by simp) width s.start (by simp [NoDigit]; rfl)
  simpa [addressesText] using h

theorem stoull16_stop (rest : Line) :
    stoull16 (behindMinus (s.addressesText width ++ rest)) = some s.stop := by
  have hminus : '-' ∉ addressText width s.start ++ [' '] := by
    simp [notMem_addressText (c := '-') (by decide) (by decide) width s.start]
  have hsplit : s.addressesText width ++ rest = (addressText width s.start ++ [' ']) ++
      '-' :: ([' '] ++ (addressText width s.stop ++ (" is".toList ++ rest))) := by
    simp [addressesText]
  rw [hsplit, behindMinus_append hminus]
  exact stoull16_addressText (by simp [isSpace]) width s.stop (by simp [NoDigit]; rfl)

/-- `file type` has a blank inside, and behind the segment name there is no second one
before the file. -/
theorem not_fileType_segmentName :
    ¬ "file type".toList <:+: ' ' :: (s.segmentName ++ ' ' :: ['i']) := by
  intro h
  rcases List.infix_cons_iff.mp h with hp | ⟨u, v, huv⟩
  · revert hp
    exact fun hp => absurd (List.cons_prefix_cons.mp hp).1 (by decide)
  · have hcount := congrArg (List.count ' ') huv
    have hword : s.segmentName.count ' ' = 0 := List.count_eq_zero.mpr s.segmentName_word
    have hpattern : "file type".toList.count ' ' = 1 := by decide
    have htail : (' ' :: ['i']).count ' ' = 1 := by decide
    rw [List.count_append, List.count_append, List.count_append, hword, hpattern, htail] at hcount
    have hv : ' ' ∉ "type".toList ++ v := by
      have : v.count ' ' = 0 := by omega
      simpa using List.count_eq_zero.mp this
    have hsplit : u ++ "file type".toList ++ v = (u ++ "file".toList) ++ ' ' ::
        ("type".toList ++ v) := by
      simp
    rw [hsplit] at huv
    have hends := (append_cons_inj hv (by decide) huv).2
    simp at hends

theorem contains_fileType_iff (hindent : ∀ c ∈ indent, isSpace c = true) :
    contains (s.text indent width) "file type" = true ↔
      ∃ file ∈ s.file, "file type".toList <:+: file := by
  have hsplit : s.text indent width = (indent ++ addressText width s.start ++ " - ".toList ++
      addressText width s.stop ++ " i".toList) ++ 's' :: (' ' :: s.names) := by
    simp [text]
  have hfront : ¬ "file type".toList <:+: indent ++ addressText width s.start ++ " - ".toList ++
      addressText width s.stop ++ " i".toList := by
    intro h
    have hl := h.subset (show 'l' ∈ "file type".toList by decide)
    have haddress : ∀ address, 'l' ∉ addressText width address :=
      notMem_addressText (by decide) (by decide) width
    have hnone : 'l' ∉ indent := fun h => absurd (hindent _ h) (by decide)
    simp [haddress, hnone] at hl
  rw [contains_iff, hsplit, infix_append_cons_iff (by decide), or_iff_right hfront]
  cases hfile : s.file with
  | none =>
    simp only [names, hfile, Option.mem_def, reduceCtorEq, false_and, exists_false, iff_false,
      List.append_nil]
    intro h
    apply s.not_fileType_segmentName
    exact h.trans ⟨[], " i".toList, by simp⟩
  | some file =>
    have hnames : ' ' :: s.names = (' ' :: (s.segmentName ++ ' ' :: ['i'])) ++ 'n' ::
        (' ' :: file) := by
      simp [names, hfile]
    rw [hnames, infix_append_cons_iff (by decide), or_iff_right s.not_fileType_segmentName]
    simp only [Option.mem_def, Option.some.injEq, exists_eq_left']
    constructor
    · intro h
      rcases List.infix_cons_iff.mp h with hp | hi
      · exact absurd (List.cons_prefix_cons.mp hp).1 (by decide)
      · exact hi
    · exact fun h => List.infix_cons_iff.mpr (.inr h)

/-- What is added for a line that is not taken for the one of the main file. -/
def entry (proc : Line × Line) : Option ModuleInformation :=
  if s.namesRead = [] then none
  else
    let directoryAndFilename := match find s.namesRead "in " with
      | some fromIn => splitPathIntoDirectoryAndFileName (fromIn.drop 3)
      | none => proc
    some ⟨s.start, s.stop, directoryAndFilename.2, s.namesRead.takeWhile (· ≠ ' '),
      directoryAndFilename.1⟩

theorem parseLine_text {p : InfoFilesParser} (hmain : p.reachedMainPart = true)
    (hindent : ∀ c ∈ indent, isSpace c = true)
    (hfile : contains (s.text indent width) "file type" = false) :
    parseLine p (s.text indent width) = some { p with
      loadedFiles := p.loadedFiles ++ (s.entry (p.procPath, p.procName)).toList } := by
  have hne : ∀ rest, s.addressesText width ++ rest ≠ [] := by simp [addressesText]
  simp only [parseLine, hmain, Bool.not_true, Bool.false_eq_true, if_false, hfile,
    s.trim_text indent width hindent, hne, find_is, stoull16_start, stoull16_stop]
  by_cases hnames : s.namesRead = []
  · have hnone : findFirst "is ".toList ("is".toList ++ []) = none := by decide
    rw [entry, if_pos hnames, if_pos hnames, hnone]
    simp [← hmain]
  · have hsome : findFirst "is ".toList ("is".toList ++ ' ' :: s.namesRead) =
        some ("is ".toList ++ s.namesRead) := by
      rw [findFirst_of_isPrefixOf ⟨s.namesRead, by simp⟩]
      simp
    rw [entry, if_neg hnames, if_neg hnames, hsome]
    have hdrop : ("is ".toList ++ s.namesRead).drop 3 = s.namesRead := rfl
    simp only [hdrop]
    cases find s.namesRead "in " <;> rfl

end Section

/-! ### Which sections are read as they are -/

/-- The main file as the parser reads it: up to the first apostrophe. -/
def shownName (mainFile : Line) : Line := mainFile.takeWhile (· ≠ '\x27')

/-- A section that is read as it is. Without a file, a segment name that ends with a blank
is cut, and an apostrophe cuts the main file. With one, `in ` must not be found in the
segment name, nor `file type` in the file, and a file that ends with a blank is cut. -/
def Section.Readable (mainFile : Line) (s : Section) : Prop :=
  match s.file with
  | none => s.segmentName ≠ [] ∧ (∀ c ∈ s.segmentName.getLast?, isSpace c = false) ∧
      '\x27' ∉ mainFile
  | some file => ¬ "file type".toList <:+: file ∧ ¬ "in".toList <:+ s.segmentName ∧
      if file.all isSpace then
        splitPathIntoDirectoryAndFileName (shownName mainFile) =
          splitPathIntoDirectoryAndFileName file
      else ∀ c ∈ file.getLast?, isSpace c = false

namespace Section

variable (s : Section)

theorem split_shownName_iff (mainFile : Line) :
    splitPathIntoDirectoryAndFileName (shownName mainFile) =
      splitPathIntoDirectoryAndFileName mainFile ↔ '\x27' ∉ mainFile := by
  constructor
  · intro h hmem
    have hcount := count_eq_of_split_eq h (c := '\x27') (by decide) (by decide) (by decide)
    have hshown : '\x27' ∉ shownName mainFile := fun h => by simpa using List.mem_takeWhile_imp h
    rw [List.count_eq_zero.mpr hshown] at hcount
    exact List.count_eq_zero.mp hcount.symm hmem
  · intro h
    rw [shownName, List.takeWhile_eq_self_iff.mpr]
    intro c hc
    simpa using fun heq : c = '\x27' => h (heq ▸ hc)

theorem entry_none {s : Section} (hfile : s.file = none) (mainFile : Line) :
    s.entry (splitPathIntoDirectoryAndFileName (shownName mainFile)) =
      some (s.information mainFile) ↔ s.Readable mainFile := by
  have hnames : s.namesRead = trimEnd isSpace s.segmentName := by simp [namesRead, names, hfile]
  have hword : ' ' ∉ s.namesRead := by
    obtain ⟨b, hb, -⟩ := @exists_trimEnd _ isSpace s.segmentName
    rw [hnames]
    exact fun h => s.segmentName_word (hb ▸ List.mem_append_left b h)
  have hin : find s.namesRead "in " = none := by
    rw [find_eq, ← Option.not_isSome_iff_eq_none, findFirst_isSome_iff]
    exact fun h => hword (h.subset (by decide))
  have htake : s.namesRead.takeWhile (· ≠ ' ') = s.namesRead := by
    rw [List.takeWhile_eq_self_iff]
    intro c hc
    simpa using fun heq : c = ' ' => hword (heq ▸ hc)
  simp only [Readable, hfile, entry, hin, htake, information, Option.getD_none]
  rw [← split_shownName_iff mainFile, ← trimEnd_eq_self_iff, ← hnames]
  by_cases hempty : s.namesRead = []
  · rw [if_pos hempty, hempty]
    simp only [reduceCtorEq, false_iff, not_and]
    exact fun hne heq => absurd heq.symm hne
  · rw [if_neg hempty, Option.some.injEq, ModuleInformation.mk.injEq, Prod.ext_iff]
    constructor
    · rintro ⟨-, -, hname, hseg, hpath⟩
      exact ⟨hseg ▸ hempty, hseg, hpath, hname⟩
    · rintro ⟨-, hseg, hpath, hname⟩
      exact ⟨rfl, rfl, hname, hseg, hpath⟩

theorem count_blank {path path' : Line}
    (h : splitPathIntoDirectoryAndFileName path = splitPathIntoDirectoryAndFileName path')
    {c : Char} (hc : isSpace c = true) : path.count c = path'.count c := by
  apply count_eq_of_split_eq h <;> rintro rfl <;> revert hc <;> decide

/-- A blank at the end of a path is in its file name. -/
theorem split_trimEnd_iff (file : Line) :
    splitPathIntoDirectoryAndFileName (trimEnd isSpace file) =
      splitPathIntoDirectoryAndFileName file ↔ ∀ c ∈ file.getLast?, isSpace c = false := by
  rw [← trimEnd_eq_self_iff]
  constructor
  · intro h
    obtain ⟨b, hb, hblank⟩ := @exists_trimEnd _ isSpace file
    cases b with
    | nil => rw [List.append_nil] at hb; exact hb.symm
    | cons c b =>
      have hcount := count_blank h (hblank c List.mem_cons_self)
      conv_rhs at hcount => rw [hb]
      rw [List.count_append, List.count_cons_self] at hcount
      omega
  · exact fun h => by rw [h]

theorem entry_some {s : Section} {file : Line} (hfile : s.file = some file) (mainFile : Line)
    (hfileType : ¬ "file type".toList <:+: file) :
    s.entry (splitPathIntoDirectoryAndFileName (shownName mainFile)) =
      some (s.information mainFile) ↔ s.Readable mainFile := by
  have hnames : s.namesRead = s.segmentName ++ ' ' :: ("in".toList ++
      if trimEnd isSpace file = [] then [] else ' ' :: trimEnd isSpace file) := by
    have hsplit : s.names = (s.segmentName ++ " i".toList) ++ 'n' :: (' ' :: file) := by
      simp [names, hfile]
    rw [namesRead, hsplit, trimEnd_append_cons _ (by decide), trimEnd_cons_of_blank (by decide)]
    simp
  have hne : s.namesRead ≠ [] := by simp [hnames]
  have htake : s.namesRead.takeWhile (· ≠ ' ') = s.segmentName := by
    rw [hnames, List.takeWhile_append_of_pos, List.takeWhile_cons_of_neg (by decide),
      List.append_nil]
    intro c hc
    simpa using fun heq : c = ' ' => s.segmentName_word (heq ▸ hc)
  simp only [Readable, hfile, entry, hne, if_false, htake, information, Option.getD_some]
  rw [Option.some.injEq, ModuleInformation.mk.injEq]
  simp only [hfileType, not_false_eq_true, true_and, List.all_eq_true, ← trimEnd_eq_nil_iff,
    ← split_trimEnd_iff, and_comm (a := Prod.snd _ = _), ← Prod.ext_iff]
  rw [hnames, find_eq, show "in ".toList = "in".toList ++ [' '] from rfl]
  by_cases hin : "in".toList <:+ s.segmentName
  · rw [findFirst_append_cons_of_suffix (by decide) s.segmentName_word hin]
    simp only [hin, not_true_eq_false, false_and, iff_false]
    intro h
    have hcount := count_eq_of_split_eq h (c := 'i') (by decide) (by decide) (by decide)
    have hfileCount := @count_trimEnd _ isSpace _ _ 'i' (by decide) file
    split at hcount
    case isTrue hempty =>
      rw [hempty] at hfileCount
      simp [← hfileCount] at hcount
    case isFalse =>
      simp [← hfileCount] at hcount
  · rw [findFirst_append_cons_of_not_suffix (by decide) s.segmentName_word hin]
    simp only [hin, not_false_eq_true, true_and]
    by_cases hempty : trimEnd isSpace file = []
    · simp only [hempty, if_true]
      rfl
    · simp only [hempty, if_false]
      rw [findFirst_of_isPrefixOf ⟨trimEnd isSpace file, by simp⟩]
      rfl

theorem entry_eq_iff (mainFile : Line) (hfile : ∀ file ∈ s.file, ¬ "file type".toList <:+: file) :
    s.entry (splitPathIntoDirectoryAndFileName (shownName mainFile)) =
      some (s.information mainFile) ↔ s.Readable mainFile := by
  cases h : s.file with
  | none => exact entry_none h mainFile
  | some file => exact entry_some h mainFile (hfile file h)

end Section

/-! ### One line of any text -/

namespace InfoFilesParser

/-- What one line can do: it names the main file, or it is a section's, or neither. The text
it leaves comes from the line or from the main file. -/
theorem parseLine_cases {s t : InfoFilesParser} {line : Line} (h : parseLine s line = some t) :
    (∃ main, t = { s with reachedMainPart := main }) ∨
      (∃ path, path ⊆ line ∧
        t = { s with
          procName := (splitPathIntoDirectoryAndFileName path).2
          procPath := (splitPathIntoDirectoryAndFileName path).1 }) ∨
      ∃ e : ModuleInformation, t = { s with loadedFiles := s.loadedFiles ++ [e] } ∧
        e.segmentName ⊆ line ∧ ((e.path, e.name) = (s.procPath, s.procName) ∨
          ∃ path, path ⊆ line ∧ (e.path, e.name) = splitPathIntoDirectoryAndFileName path) := by
  unfold parseLine at h
  split at h
  · split at h <;> cases h
    · exact .inl ⟨true, rfl⟩
    · exact .inl ⟨s.reachedMainPart, rfl⟩
  split at h
  · split at h
    case h_1 path hpath =>
      cases h
      refine .inr (.inl ⟨path, ?_, rfl⟩)
      unfold quotedName at hpath
      split at hpath
      · cases hpath
        split
        · exact List.Subset.trans (List.take_subset _ _) (List.drop_subset _ _)
        · exact List.drop_subset _ _
      · cases hpath
    case h_2 =>
      cases h
      exact .inl ⟨s.reachedMainPart, rfl⟩
  simp only at h
  split at h
  · cases h
    exact .inl ⟨s.reachedMainPart, rfl⟩
  split at h
  · cases h
    exact .inl ⟨s.reachedMainPart, rfl⟩
  case h_2 fromIs hfromIs =>
    have htrim : fromIs.drop 3 ⊆ line :=
      List.Subset.trans (List.drop_subset _ _)
        (List.Subset.trans (suffix_of_findFirst hfromIs).subset (trim_subset line))
    simp only [Option.bind_eq_bind, Option.bind_eq_some_iff, Option.some.injEq] at h
    obtain ⟨start, -, stop, -, rfl⟩ := h
    refine .inr (.inr ⟨_, rfl, ?_, ?_⟩)
    · exact List.Subset.trans (List.takeWhile_subset _) htrim
    · cases hin : find (fromIs.drop 3) "in " with
      | none => exact .inl rfl
      | some fromIn =>
        refine .inr ⟨fromIn.drop 3, ?_, rfl⟩
        exact List.Subset.trans (List.drop_subset _ _)
          (List.Subset.trans (suffix_of_findFirst hin).subset htrim)

theorem parseLine_loadedFiles {s t : InfoFilesParser} {line : Line}
    (h : parseLine s line = some t) :
    ∃ more, t.loadedFiles = s.loadedFiles ++ more ∧ more.length ≤ 1 := by
  rcases parseLine_cases h with ⟨_, rfl⟩ | ⟨_, -, rfl⟩ | ⟨e, rfl, -⟩
  · exact ⟨[], by simp⟩
  · exact ⟨[], by simp⟩
  · exact ⟨[e], rfl, le_rfl⟩

theorem foldlM_loadedFiles {lines : List Line} {s t : InfoFilesParser}
    (h : lines.foldlM parseLine s = some t) :
    ∃ more, t.loadedFiles = s.loadedFiles ++ more ∧ more.length ≤ lines.length := by
  induction lines generalizing s with
  | nil =>
    cases h
    exact ⟨[], by simp⟩
  | cons line lines ih =>
    rw [List.foldlM_cons, Option.bind_eq_bind, Option.bind_eq_some_iff] at h
    obtain ⟨u, hline, hlines⟩ := h
    obtain ⟨first, hfirst, hfirstLength⟩ := parseLine_loadedFiles hline
    obtain ⟨more, hmore, hmoreLength⟩ := ih hlines
    refine ⟨first ++ more, by rw [hmore, hfirst, List.append_assoc], ?_⟩
    rw [List.length_append, List.length_cons]
    omega

/-- No line end is in what has been read. -/
structure OneLine (s : InfoFilesParser) : Prop where
  procPath : '\n' ∉ s.procPath
  procName : '\n' ∉ s.procName
  segmentName : ∀ e ∈ s.loadedFiles, '\n' ∉ e.segmentName
  path : ∀ e ∈ s.loadedFiles, '\n' ∉ e.path
  name : ∀ e ∈ s.loadedFiles, '\n' ∉ e.name

theorem notMem_split_iff {path : Line} :
    '\n' ∉ path ↔ '\n' ∉ (splitPathIntoDirectoryAndFileName path).1 ∧
      '\n' ∉ (splitPathIntoDirectoryAndFileName path).2 := by
  have hcount := count_splitPath (c := '\n') (by decide) (by decide) (by decide) path
  rw [← List.count_eq_zero, ← List.count_eq_zero, ← List.count_eq_zero]
  omega

theorem parseLine_oneLine {s t : InfoFilesParser} {line : Line} (h : parseLine s line = some t)
    (hline : '\n' ∉ line) (hs : s.OneLine) : t.OneLine := by
  rcases parseLine_cases h with ⟨_, rfl⟩ | ⟨path, hpath, rfl⟩ | ⟨e, rfl, hsegment, hnames⟩
  · exact ⟨hs.procPath, hs.procName, hs.segmentName, hs.path, hs.name⟩
  · have hsplit := notMem_split_iff.mp fun h => hline (hpath h)
    exact ⟨hsplit.1, hsplit.2, hs.segmentName, hs.path, hs.name⟩
  · have hnew : '\n' ∉ e.path ∧ '\n' ∉ e.name := by
      rcases hnames with heq | ⟨path, hpath, heq⟩
      · rw [Prod.mk.injEq] at heq
        exact ⟨heq.1 ▸ hs.procPath, heq.2 ▸ hs.procName⟩
      · have hsplit := notMem_split_iff.mp fun h => hline (hpath h)
        rw [← heq] at hsplit
        exact hsplit
    refine ⟨hs.procPath, hs.procName, ?_, ?_, ?_⟩
    all_goals
      intro e' he'
      rcases List.mem_append.mp he' with he' | he'
    · exact hs.segmentName e' he'
    · exact List.mem_singleton.mp he' ▸ fun h => hline (hsegment h)
    · exact hs.path e' he'
    · exact List.mem_singleton.mp he' ▸ hnew.1
    · exact hs.name e' he'
    · exact List.mem_singleton.mp he' ▸ hnew.2

theorem foldlM_oneLine {lines : List Line} {s t : InfoFilesParser}
    (h : lines.foldlM parseLine s = some t) (hlines : ∀ line ∈ lines, '\n' ∉ line)
    (hs : s.OneLine) : t.OneLine := by
  induction lines generalizing s with
  | nil =>
    cases h
    exact hs
  | cons line lines ih =>
    rw [List.foldlM_cons, Option.bind_eq_bind, Option.bind_eq_some_iff] at h
    obtain ⟨u, hu, hrest⟩ := h
    exact ih hrest (fun l hl => hlines l (.tail _ hl))
      (parseLine_oneLine hu (hlines line (.head _)) hs)

end InfoFilesParser

end Fluffi.Runner.Gdb
