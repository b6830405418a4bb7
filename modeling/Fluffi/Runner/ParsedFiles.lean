import Fluffi.Runner.SectionLines

/-! The whole answer to `info files`. Its sections are read as they were printed exactly if each
of them is printed on one line, and that line is read as it is. -/

namespace Fluffi.Runner.Gdb

open Shared Systems
open InfoFilesParser

/-! ### The whole answer -/

/-- The state below the line of the main file. -/
def sectionsReached (mainFile : Line) (loadedFiles : List ModuleInformation) :
    InfoFilesParser :=
  let directoryAndFilename := splitPathIntoDirectoryAndFileName (shownName mainFile)
  ⟨true, directoryAndFilename.2, directoryAndFilename.1, loadedFiles⟩

/-- A line that adds nothing is never made up for. -/
theorem foldlM_short (mainFile indent : Line) (width : ℕ) (s : Section) (sections : List Section)
    (u : InfoFilesParser) :
    ((sections.map (Section.text indent width)).foldlM parseLine u).map (·.loadedFiles) ≠
      some (u.loadedFiles ++ (s :: sections).map (Section.information mainFile)) := by
  intro h
  obtain ⟨t, ht, hfiles⟩ := Option.map_eq_some_iff.mp h
  obtain ⟨more, hmore, hlength⟩ := foldlM_loadedFiles ht
  rw [hmore, List.append_cancel_left_eq] at hfiles
  simp only [hfiles, List.length_map, List.length_cons] at hlength
  omega

/-- A line with `file type` in it adds nothing. -/
theorem parseLine_fileType (s : InfoFilesParser) {line : Line}
    (h : contains line "file type" = true) :
    ∃ t, parseLine s line = some t ∧ t.loadedFiles = s.loadedFiles := by
  cases hreached : s.reachedMainPart with
  | false =>
    simp only [parseLine, hreached, Bool.not_false, if_true]
    split <;> exact ⟨_, rfl, rfl⟩
  | true =>
    simp only [parseLine, hreached, h, Bool.not_true, Bool.false_eq_true, if_false, if_true]
    cases quotedName line <;> exact ⟨_, rfl, rfl⟩

/-- From any files read so far: each section adds what was printed exactly if it is
readable. -/
theorem foldlM_sections {mainFile indent : Line} (hindent : ∀ c ∈ indent, isSpace c = true)
    (width : ℕ) (sections : List Section) (loadedFiles : List ModuleInformation) :
    ((sections.map (Section.text indent width)).foldlM parseLine
        (sectionsReached mainFile loadedFiles)).map (·.loadedFiles) =
      some (loadedFiles ++ sections.map (Section.information mainFile)) ↔
    ∀ s ∈ sections, s.Readable mainFile := by
  induction sections generalizing loadedFiles with
  | nil => simp [sectionsReached]
  | cons s sections ih =>
    rw [List.forall_mem_cons, List.map_cons, List.foldlM_cons, Option.bind_eq_bind]
    cases hfileType : contains (s.text indent width) "file type" with
    | true =>
      obtain ⟨file, hfile, hin⟩ := (s.contains_fileType_iff indent width hindent).mp hfileType
      have hnot : ¬ s.Readable mainFile := by
        rw [Section.Readable, Option.mem_def.mp hfile]
        exact fun h => h.1 hin
      obtain ⟨u, hu, hloaded⟩ := parseLine_fileType (sectionsReached mainFile loadedFiles)
        hfileType
      have hshort := foldlM_short mainFile indent width s sections u
      rw [hloaded] at hshort
      rw [hu, Option.bind_some]
      exact iff_of_false hshort fun h => hnot h.1
    | false =>
      have hfile : ∀ file ∈ s.file, ¬ "file type".toList <:+: file := by
        intro file hfile hin
        have := (s.contains_fileType_iff indent width hindent).mpr ⟨file, hfile, hin⟩
        rw [hfileType] at this
        cases this
      have hread := s.entry_eq_iff mainFile hfile
      rw [s.parseLine_text indent width rfl hindent hfileType, Option.bind_some]
      simp only [sectionsReached, Prod.mk.eta] at ih hread ⊢
      cases hentry : s.entry (splitPathIntoDirectoryAndFileName (shownName mainFile)) with
      | none =>
        rw [hentry] at hread
        rw [Option.toList_none, List.append_nil]
        refine iff_of_false (foldlM_short mainFile indent width s sections ⟨true, _, _, _⟩)
          fun h => ?_
        cases hread.mpr h.1
      | some e =>
        rw [hentry, Option.some.injEq] at hread
        rw [← hread, ← ih (loadedFiles ++ [e]), Option.toList_some, List.append_assoc,
          List.map_cons, List.singleton_append]
        constructor
        · intro h
          obtain ⟨t, ht, hfiles⟩ := Option.map_eq_some_iff.mp h
          obtain ⟨more, hmore, -⟩ := foldlM_loadedFiles ht
          rw [hmore, List.append_assoc, List.append_cancel_left_eq, List.singleton_append,
            List.cons.injEq] at hfiles
          rw [hfiles.1] at h ⊢
          exact ⟨rfl, h⟩
        · rintro ⟨rfl, h⟩
          exact h

namespace InfoFilesAnswer

variable (a : InfoFilesAnswer)

theorem exists_shownName (mainFile rest : Line) :
    ∃ rest', mainFile ++ '\x27' :: rest = shownName mainFile ++ '\x27' :: rest' := by
  have hsplit := List.takeWhile_append_dropWhile (p := (· ≠ '\x27')) (l := mainFile)
  cases hdrop : mainFile.dropWhile (· ≠ '\x27') with
  | nil =>
    rw [hdrop, List.append_nil] at hsplit
    exact ⟨rest, by rw [shownName, hsplit]⟩
  | cons c tail =>
    obtain rfl : c = '\x27' := by
      have := List.head?_dropWhile_not (p := (· ≠ '\x27')) (l := mainFile)
      rw [hdrop] at this
      simpa using this
    rw [hdrop] at hsplit
    exact ⟨tail ++ '\x27' :: rest, by conv_lhs => rw [← hsplit]
                                      simp [shownName]⟩

theorem quotedName_mainLine : quotedName a.mainLine = some (shownName a.mainFile) := by
  obtain ⟨rest, hrest⟩ := exists_shownName a.mainFile (", file type ".toList ++ a.fileType ++
    ".".toList)
  have hline : a.mainLine = a.indent ++ '\x60' :: (shownName a.mainFile ++ '\x27' :: rest) := by
    rw [← hrest]
    simp [mainLine]
  have hstart : '\x60' ∉ a.indent := fun h => absurd (a.indent_blank _ h).1 (by decide)
  have hstop : '\x27' ∉ a.indent ++ '\x60' :: shownName a.mainFile := by
    have hindent : '\x27' ∉ a.indent := fun h => absurd (a.indent_blank _ h).1 (by decide)
    have hshown : '\x27' ∉ shownName a.mainFile := fun h => by
      simpa using List.mem_takeWhile_imp h
    simp [hindent, hshown]
  have hline' : a.mainLine = (a.indent ++ '\x60' :: shownName a.mainFile) ++ '\x27' :: rest := by
    rw [hline]
    simp
  have hopen : a.mainLine.idxOf? '\x60' = some a.indent.length := by
    rw [hline, idxOf?_append_cons hstart]
  have hclose : a.mainLine.idxOf? '\x27' =
      some (a.indent.length + 1 + (shownName a.mainFile).length) := by
    rw [hline', idxOf?_append_cons hstop]
    simp only [List.length_append, List.length_cons]
    congr 1
    omega
  have hdrop : a.mainLine.drop (a.indent.length + 1) = shownName a.mainFile ++ '\x27' :: rest := by
    rw [hline, List.drop_append]
    simp
  have hlength : a.indent.length + 1 + (shownName a.mainFile).length - a.indent.length - 1 =
      (shownName a.mainFile).length := by
    omega
  rw [quotedName, hopen, hclose]
  simp only [hdrop, hlength]
  rw [if_pos (by omega), List.take_left']
  rfl

theorem parseLine_mainLine : parseLine ⟨true, [], [], []⟩ a.mainLine =
    some (sectionsReached a.mainFile []) := by
  have hfileType : contains a.mainLine "file type" = true := by
    rw [contains_iff]
    exact ⟨a.indent ++ '\x60' :: a.mainFile ++ "', ".toList, ' ' :: a.fileType ++ ".".toList,
      by simp [mainLine]⟩
  simp only [parseLine, hfileType, a.quotedName_mainLine, Bool.not_true, Bool.false_eq_true,
    if_false, if_true, sectionsReached]

/-- A line without an `s` and without an `l` is no section's and does not name the main
file. -/
theorem parseLine_of_notMem {p : InfoFilesParser} (hmain : p.reachedMainPart = true) {line : Line}
    (hs : 's' ∉ line) (hl : 'l' ∉ line) : parseLine p line = some p := by
  have hfileType : contains line "file type" = false := by
    rw [← Bool.not_eq_true, contains_iff]
    exact fun h => hl (h.subset (by decide))
  have his : find (trim isSpace line) "is " = none := by
    rw [find_eq, ← Option.not_isSome_iff_eq_none, findFirst_isSome_iff]
    exact fun h => hs (trim_subset line (h.subset (by decide)))
  simp only [parseLine, hmain, hfileType, his, Bool.not_true, Bool.false_eq_true, if_false,
    ite_self]

theorem foldlM_above {above : List Line} (h : ∀ line ∈ above, line.take 5 ≠ "Local".toList)
    (rest : List Line) :
    (above ++ rest).foldlM parseLine .init = rest.foldlM parseLine .init := by
  induction above with
  | nil => rfl
  | cons line above ih =>
    have hline : parseLine .init line = some .init := by
      simp only [parseLine, InfoFilesParser.init, Bool.not_false, if_true, beq_iff_eq,
        h line (.head _), if_false]
    rw [List.cons_append, List.foldlM_cons, hline, Option.bind_eq_bind, Option.bind_some,
      ih fun l hl => h l (.tail _ hl)]

/-- Up to the sections. -/
theorem foldlM_lines : a.lines.foldlM parseLine .init =
    (a.sections.map (Section.text a.indent a.width)).foldlM parseLine
      (sectionsReached a.mainFile []) := by
  have hlocal : parseLine .init "Local exec file:".toList = some ⟨true, [], [], []⟩ := by decide
  have hentry : ∀ address : UInt64, parseLine (sectionsReached a.mainFile [])
      (a.indent ++ "Entry point: 0x".toList ++ hexText address.toNat) =
        some (sectionsReached a.mainFile []) := by
    intro address
    have hnone : ∀ c, hexDigit c = none → isSpace c = false → c ∉ "Entry point: 0x".toList →
        c ∉ a.indent ++ "Entry point: 0x".toList ++ hexText address.toNat := by
      intro c hdigit hspace htext h
      rcases List.mem_append.mp h with h | h
      · rcases List.mem_append.mp h with h | h
        · rw [(a.indent_blank c h).1] at hspace
          cases hspace
        · exact htext h
      · have := mem_hexText h
        rw [hdigit] at this
        cases this
    exact parseLine_of_notMem rfl (hnone 's' (by decide) (by decide) (by decide))
      (hnone 'l' (by decide) (by decide) (by decide))
  rw [lines, List.append_assoc, List.append_assoc,
    foldlM_above fun line hline => (a.above_not_local line hline).1]
  simp only [List.cons_append, List.nil_append, List.foldlM_cons, hlocal, a.parseLine_mainLine,
    Option.bind_eq_bind, Option.bind_some]
  cases a.entryPoint with
  | none => rfl
  | some address =>
    simp only [Option.toList_some, List.map_cons, List.map_nil, List.cons_append,
      List.nil_append, List.foldlM_cons, hentry, Option.bind_eq_bind, Option.bind_some]

theorem splitString_text (h : ∀ s ∈ a.sections, '\n' ∉ s.names) :
    splitString a.text ['\n'] = a.lines := by
  rw [splitString_singleton, text, List.splitOn_intercalate]
  · have hindent : '\n' ∉ a.indent := fun h => (a.indent_blank _ h).2 rfl
    have haddress : ∀ address, '\n' ∉ addressText a.width address :=
      notMem_addressText (by decide) (by decide) a.width
    have hnumber : ∀ n, '\n' ∉ hexText n := by
      intro n hmem
      have := mem_hexText hmem
      revert this
      decide
    intro line hline
    simp only [lines, List.mem_append, List.mem_cons, List.not_mem_nil, or_false, List.mem_map,
      Option.mem_toList] at hline
    rcases hline with ((habove | rfl | rfl) | ⟨address, -, rfl⟩) | ⟨s, hs, rfl⟩
    · exact (a.above_not_local line habove).2
    · decide
    · simp [mainLine, hindent, a.mainFile_line, a.fileType_line]
    · simp [hindent, hnumber]
    · simp [Section.text, hindent, haddress, h s hs]
  · simp [lines]

theorem notMem_names {s : Section} (hsegment : '\n' ∉ s.segmentName)
    (hfile : '\n' ∉ s.file.getD []) : '\n' ∉ s.names := by
  cases h : s.file with
  | none => simpa [Section.names, h] using hsegment
  | some file =>
    rw [h] at hfile
    simp only [Option.getD_some] at hfile
    simp [Section.names, h, hsegment, hfile]

/-- Every answer is read as it was printed exactly if each section stays on its line and is
readable. -/
theorem parseInfoFiles_eq_iff :
    parseInfoFiles a.text = some (a.sections.map (Section.information a.mainFile)) ↔
      ∀ s ∈ a.sections, '\n' ∉ s.names ∧ s.Readable a.mainFile := by
  have hread : (∀ s ∈ a.sections, '\n' ∉ s.names) →
      (parseInfoFiles a.text = some (a.sections.map (Section.information a.mainFile)) ↔
        ∀ s ∈ a.sections, s.Readable a.mainFile) := by
    intro hnames
    rw [parseInfoFiles, a.splitString_text hnames, a.foldlM_lines]
    exact foldlM_sections (fun c hc => (a.indent_blank c hc).1) a.width a.sections []
  constructor
  · intro h
    have hnames : ∀ s ∈ a.sections, '\n' ∉ s.names := by
      intro s hs
      obtain ⟨t, ht, hfiles⟩ := Option.map_eq_some_iff.mp h
      have hlines : ∀ line ∈ splitString a.text ['\n'], '\n' ∉ line := by
        intro line hline
        rw [splitString_singleton] at hline
        exact notMem_of_mem_splitOn hline
      have honeLine := foldlM_oneLine ht hlines ⟨by simp [init], by simp [init], by simp [init],
        by simp [init], by simp [init]⟩
      have hmem : s.information a.mainFile ∈ t.loadedFiles := by
        rw [hfiles]
        exact List.mem_map_of_mem hs
      refine notMem_names (honeLine.segmentName _ hmem) ?_
      have hpath := notMem_split_iff.mpr ⟨honeLine.path _ hmem, honeLine.name _ hmem⟩
      cases hfile : s.file with
      | none => simp
      | some file => simpa [hfile] using hpath
    exact fun s hs => ⟨hnames s hs, (hread hnames).mp h s hs⟩
  · intro h
    exact (hread fun s hs => (h s hs).1).mpr fun s hs => (h s hs).2

end InfoFilesAnswer

/-- A library whose path has `file type` in it, and one with a segment `.plugin`. -/
def pluginAnswer : InfoFilesAnswer where
  above := []
  mainFile := "/bin/target".toList
  fileType := "elf64-x86-64".toList
  entryPoint := none
  width := 4
  indent := ['\t']
  sections := [⟨0x1000, 0x2000, ".text".toList, some "/opt/file type/liba.so".toList, by decide⟩,
    ⟨0x3000, 0x4000, ".plugin".toList, some "/lib/libb.so".toList, by decide⟩]
  above_not_local := by simp
  mainFile_line := by decide
  fileType_line := by decide
  indent_blank c hc := by
    obtain rfl := List.mem_singleton.mp hc
    decide

/-- The first section is lost, and the directory of the second one is wrong. -/
theorem parseInfoFiles_plugin :
    parseInfoFiles pluginAnswer.text = some [⟨0x3000, 0x4000, "libb.so".toList,
        ".plugin".toList, "in /lib".toList⟩] ∧
      parseInfoFiles pluginAnswer.text ≠
        some (pluginAnswer.sections.map (Section.information pluginAnswer.mainFile)) := by
  have hread : parseInfoFiles pluginAnswer.text = some [⟨0x3000, 0x4000, "libb.so".toList,
      ".plugin".toList, "in /lib".toList⟩] := by decide +kernel
  refine ⟨hread, ?_⟩
  rw [hread]
  decide

end Fluffi.Runner.Gdb
