import Mathlib.Data.List.Basic
import Mathlib.Data.List.Induction
import Mathlib.Data.Set.Basic

/-! A folder is created after its parents are. The parents of a path are the paths of its first
elements; the last of them is the empty path, which names nothing. -/

namespace Fluffi.Shared.Folders

/-- A path, as the elements that its iterators visit: a root is one or two elements. -/
abbrev Path := List String

inductive Kind
  | directory | file
  deriving DecidableEq, Repr

/-- The file system of the machine. Whatever has something below it is a directory, and creating
a directory below an existing one succeeds. -/
structure FileSystem (σ : Type*) where
  kind : σ → Path → Option Kind
  create_directory : σ → Path → Option σ
  kind_nil : ∀ s, kind s [] = none
  kind_parent : ∀ s p x, p ≠ [] → kind s (p ++ [x]) ≠ none → kind s p = some .directory
  create_keeps : ∀ s s' p q k, create_directory s p = some s' → kind s q = some k →
    kind s' q = some k
  /-- What is new is the directory, or a name for it such as its own dot. -/
  create_adds : ∀ s s' p q, create_directory s p = some s' → kind s q = none →
    kind s' q ≠ some .file
  create_below : ∀ s p x, kind s p = some .directory → kind s (p ++ [x]) = none →
    ∃ s', create_directory s (p ++ [x]) = some s' ∧ kind s' (p ++ [x]) = some .directory

inductive Failure
  | stackOverflow | filesystem_error
  deriving DecidableEq, Repr

variable {σ : Type*} (fs : FileSystem σ)

namespace FileSystem

def pathExists (s : σ) (p : Path) : Bool := (fs.kind s p).isSome

def createMissing (s : σ) (folder : Path) : Except Failure σ :=
  if fs.pathExists s folder then .ok s
  else
    match fs.create_directory s folder with
    | none => .error .filesystem_error
    | some s' => .ok s'

/-- With so many frames on the stack. -/
def createFolderAndParentFolders : ℕ → σ → Path → Except Failure σ
  | 0, _, _ => .error .stackOverflow
  | stack + 1, s, folder =>
    let parent := folder.dropLast
    if fs.pathExists s parent then fs.createMissing s folder
    else
      match createFolderAndParentFolders stack s parent with
      | .error failure => .error failure
      | .ok s' => fs.createMissing s' folder

/-- With enough stack the function returns, and the folder and its parents are there. -/
def Works (s : σ) (folder : Path) : Prop :=
  ∃ stack s', fs.createFolderAndParentFolders stack s folder = .ok s' ∧
    ∀ p, p ≠ [] → p <+: folder → fs.kind s' p = some .directory

/-- One of the parents is there already, and none of them, nor the folder, is a file. -/
structure Rooted (s : σ) (folder : Path) : Prop where
  parent : ∃ p, p ≠ [] ∧ p <+: folder.dropLast ∧ fs.pathExists s p = true
  folders : ∀ p, p ≠ [] → p <+: folder → fs.kind s p ≠ some .file

variable {fs} {s s' : σ} {folder p : Path} {x : String} {stack : ℕ}

theorem pathExists_iff : fs.pathExists s p = true ↔ fs.kind s p ≠ none :=
  Option.isSome_iff_ne_none

theorem pathExists_nil : fs.pathExists s [] = false := by
  rw [pathExists, fs.kind_nil, Option.isSome_none]

theorem eq_directory (h : fs.kind s p ≠ none) (hfile : fs.kind s p ≠ some .file) :
    fs.kind s p = some .directory := by
  cases hkind : fs.kind s p with
  | none => exact absurd hkind h
  | some k =>
    cases k with
    | directory => rfl
    | file => exact absurd hkind hfile

/-- The parents of what is there are there. -/
theorem kind_prefix (hp : p ≠ []) (hstarts : p <+: folder) (h : fs.kind s folder ≠ none) :
    p = folder ∨ fs.kind s p = some .directory := by
  induction folder using List.reverseRecOn with
  | nil => exact .inl (List.prefix_nil.mp hstarts)
  | append_singleton folder x ih =>
    rcases List.prefix_concat_iff.mp hstarts with rfl | hstarts
    · exact .inl rfl
    · have hfolder : folder ≠ [] := by
        rintro rfl
        exact hp (List.prefix_nil.mp hstarts)
      have hdirectory := fs.kind_parent s folder x hfolder h
      rcases ih hstarts (by rw [hdirectory]; exact Option.some_ne_none _) with rfl | hp
      · exact .inr hdirectory
      · exact .inr hp

/-! ### Steps -/

theorem createMissing_keeps (h : fs.createMissing s folder = .ok s') {q : Path} {k : Kind}
    (hq : fs.kind s q = some k) : fs.kind s' q = some k := by
  unfold createMissing at h
  split at h
  · cases h
    exact hq
  · split at h
    · cases h
    case h_2 hcreate =>
      cases h
      exact fs.create_keeps _ _ _ _ _ hcreate hq

theorem createMissing_adds (h : fs.createMissing s folder = .ok s') {q : Path}
    (hq : fs.kind s q ≠ some .file) : fs.kind s' q ≠ some .file := by
  cases hkind : fs.kind s q with
  | some k =>
    rw [createMissing_keeps h hkind, ← hkind]
    exact hq
  | none =>
    unfold createMissing at h
    split at h
    · cases h
      exact hq
    · split at h
      · cases h
      case h_2 hcreate =>
        cases h
        exact fs.create_adds _ _ _ _ hcreate hkind

theorem create_of_parent (h : fs.pathExists s folder.dropLast = true) :
    fs.createFolderAndParentFolders (stack + 1) s folder = fs.createMissing s folder :=
  if_pos h

theorem create_of_missing (h : fs.pathExists s folder.dropLast = false)
    (hparent : fs.createFolderAndParentFolders stack s folder.dropLast = .ok s') :
    fs.createFolderAndParentFolders (stack + 1) s folder = fs.createMissing s' folder := by
  rw [createFolderAndParentFolders, h, if_neg Bool.false_ne_true, hparent]

/-- What is there stays as it is, and no file is added. -/
theorem create_frame (h : fs.createFolderAndParentFolders stack s folder = .ok s') (q : Path) :
    (∀ k, fs.kind s q = some k → fs.kind s' q = some k) ∧
      (fs.kind s q ≠ some .file → fs.kind s' q ≠ some .file) := by
  induction stack generalizing s s' folder with
  | zero => cases h
  | succ stack ih =>
    cases hthere : fs.pathExists s folder.dropLast with
    | true =>
      rw [create_of_parent hthere] at h
      exact ⟨fun _ => createMissing_keeps h, createMissing_adds h⟩
    | false =>
      cases hparent : fs.createFolderAndParentFolders stack s folder.dropLast with
      | error failure =>
        rw [createFolderAndParentFolders, hthere, if_neg Bool.false_ne_true, hparent] at h
        cases h
      | ok t =>
        rw [create_of_missing hthere hparent] at h
        obtain ⟨hkeeps, hadds⟩ := ih hparent
        exact ⟨fun k hk => createMissing_keeps h (hkeeps k hk),
          fun hfile => createMissing_adds h (hadds hfile)⟩

/-- Below a directory the folder is there afterwards. -/
theorem exists_createMissing (hparent : fs.kind s folder = some .directory)
    (hfile : fs.kind s (folder ++ [x]) ≠ some .file) :
    ∃ s', fs.createMissing s (folder ++ [x]) = .ok s' ∧
      fs.kind s' (folder ++ [x]) = some .directory := by
  unfold createMissing
  cases hkind : fs.kind s (folder ++ [x]) with
  | some k =>
    refine ⟨s, if_pos ?_, eq_directory ?_ hfile⟩
    · exact pathExists_iff.mpr (hkind ▸ Option.some_ne_none k)
    · exact hkind ▸ Option.some_ne_none k
  | none =>
    obtain ⟨s', hcreate, hnew⟩ := fs.create_below s folder x hparent hkind
    refine ⟨s', ?_, hnew⟩
    rw [if_neg (fun h => pathExists_iff.mp h hkind), hcreate]

/-- The parents of a folder that is there are directories, as long as it is no file. -/
theorem parents_of_pathExists (h : fs.pathExists s folder = true)
    (hfolders : ∀ q, q ≠ [] → q <+: folder → fs.kind s q ≠ some .file) :
    ∀ q, q ≠ [] → q <+: folder → fs.kind s q = some .directory := by
  intro q hq hstarts
  rcases kind_prefix hq hstarts (pathExists_iff.mp h) with rfl | hdirectory
  · exact eq_directory (pathExists_iff.mp h) (hfolders q hq hstarts)
  · exact hdirectory

/-- One level down from a folder that is there with its parents. -/
theorem exists_below (hfolder : folder ≠ [])
    (hparents : ∀ q, q ≠ [] → q <+: folder → fs.kind s q = some .directory)
    (hfile : fs.kind s (folder ++ [x]) ≠ some .file) :
    ∃ s', fs.createMissing s (folder ++ [x]) = .ok s' ∧
      ∀ q, q ≠ [] → q <+: folder ++ [x] → fs.kind s' q = some .directory := by
  obtain ⟨s', hmissing, hnew⟩ :=
    exists_createMissing (hparents folder hfolder (List.prefix_refl _)) hfile
  refine ⟨s', hmissing, fun q hq hstarts => ?_⟩
  rcases List.prefix_concat_iff.mp hstarts with rfl | hstarts
  · exact hnew
  · exact createMissing_keeps hmissing (hparents q hq hstarts)

/-! ### When it is right -/

theorem prefix_dropLast (h : p <+: folder) (hne : p ≠ folder) : p <+: folder.dropLast := by
  induction folder using List.reverseRecOn with
  | nil => exact absurd (List.prefix_nil.mp h) hne
  | append_singleton folder x _ =>
    rw [List.dropLast_concat]
    exact (List.prefix_concat_iff.mp h).resolve_left hne

/-- Without a parent that is there the recursion comes to the empty path, and stays there. -/
theorem create_of_no_parent (h : ∀ p, p ≠ [] → p <+: folder.dropLast → fs.pathExists s p = false)
    (stack : ℕ) : fs.createFolderAndParentFolders stack s folder = .error .stackOverflow := by
  induction stack generalizing folder with
  | zero => rfl
  | succ stack ih =>
    have hparent : fs.pathExists s folder.dropLast = false := by
      by_cases hempty : folder.dropLast = []
      · rw [hempty, pathExists_nil]
      · exact h _ hempty (List.prefix_refl _)
    have hrest : fs.createFolderAndParentFolders stack s folder.dropLast = .error .stackOverflow :=
      ih fun p hp hstarts => h p hp (hstarts.trans (List.dropLast_prefix _))
    rw [createFolderAndParentFolders, hparent, if_neg Bool.false_ne_true, hrest]

theorem Rooted.works (h : fs.Rooted s folder) : fs.Works s folder := by
  induction folder using List.reverseRecOn with
  | nil =>
    obtain ⟨p, hp, hstarts, -⟩ := h.parent
    exact absurd (List.prefix_nil.mp hstarts) hp
  | append_singleton folder x ih =>
    obtain ⟨p, hp, hstarts, hthere'⟩ := h.parent
    rw [List.dropLast_concat] at hstarts
    have hfolder : folder ≠ [] := by
      rintro rfl
      exact hp (List.prefix_nil.mp hstarts)
    have hfolders : ∀ q, q ≠ [] → q <+: folder → fs.kind s q ≠ some .file :=
      fun q hq hstarts => h.folders q hq (hstarts.trans (List.prefix_append _ _))
    have hfile := h.folders (folder ++ [x]) (List.append_ne_nil_of_right_ne_nil _ (by simp))
      (List.prefix_refl _)
    cases hthere : fs.pathExists s folder with
    | true =>
      obtain ⟨s', hmissing, hparents⟩ :=
        exists_below hfolder (parents_of_pathExists hthere hfolders) hfile
      refine ⟨1, s', ?_, hparents⟩
      rw [create_of_parent (by rwa [List.dropLast_concat]), hmissing]
    | false =>
      have hne : p ≠ folder := by
        rintro rfl
        rw [hthere'] at hthere
        cases hthere
      -- the parent is created first, and the folder is no file then either
      obtain ⟨stack, t, hstep, hparents⟩ := ih
        ⟨⟨p, hp, prefix_dropLast hstarts hne, hthere'⟩, hfolders⟩
      obtain ⟨s', hmissing, hparents⟩ :=
        exists_below hfolder hparents ((create_frame hstep _).2 hfile)
      refine ⟨stack + 1, s', ?_, hparents⟩
      rw [create_of_missing (by rwa [List.dropLast_concat]) (by rwa [List.dropLast_concat]),
        hmissing]

theorem works_iff (s : σ) (folder : Path) : fs.Works s folder ↔ fs.Rooted s folder := by
  refine ⟨fun ⟨stack, s', hreturns, hparents⟩ => ⟨?_, fun p hp hstarts hfile => ?_⟩, Rooted.works⟩
  · by_contra hnone
    push Not at hnone
    rw [create_of_no_parent fun p hp hstarts => Bool.eq_false_of_not_eq_true
      (hnone p hp hstarts)] at hreturns
    cases hreturns
  · have hkept := (create_frame hreturns p).1 _ hfile
    rw [hparents p hp hstarts] at hkept
    cases hkept

end FileSystem

/-! ### A disk with directories only -/

structure Directories where
  paths : List Path
  nil_notMem : [] ∉ paths
  parent_mem : ∀ p x, p ≠ [] → p ++ [x] ∈ paths → p ∈ paths

def Directories.add (s : Directories) (p : Path) (h : p.dropLast ∈ s.paths) : Directories where
  paths := p :: s.paths
  nil_notMem := by
    rw [List.mem_cons, not_or]
    refine ⟨?_, s.nil_notMem⟩
    rintro rfl
    exact s.nil_notMem h
  parent_mem q x hq hmem := by
    rcases List.mem_cons.mp hmem with rfl | hmem
    · rw [List.dropLast_concat] at h
      exact List.mem_cons_of_mem _ h
    · exact List.mem_cons_of_mem _ (s.parent_mem q x hq hmem)

def disk : FileSystem Directories where
  kind s p := if p ∈ s.paths then some .directory else none
  create_directory s p := if h : p.dropLast ∈ s.paths then some (s.add p h) else none
  kind_nil s := if_neg s.nil_notMem
  kind_parent s p x hp h := by
    rw [if_pos]
    refine s.parent_mem p x hp ?_
    by_contra hmem
    exact h (if_neg hmem)
  create_keeps s s' p q k h hq := by
    split at h <;> cases h
    split at hq <;> cases hq
    case isTrue hmem => exact if_pos (List.mem_cons_of_mem _ hmem)
  create_adds s s' p q h _ := by
    split <;> exact nofun
  create_below s p x hp _ := by
    have hmem : p ∈ s.paths := by
      by_contra hmem
      rw [if_neg hmem] at hp
      cases hp
    exact ⟨_, dif_pos (by rwa [List.dropLast_concat]), if_pos List.mem_cons_self⟩

/-- The machine has a root and a working directory. -/
def machine : Directories :=
  ⟨[["/"], ["."]], by decide, fun p x hp h => by
    obtain h | h := List.mem_pair.mp h
    all_goals exact absurd (List.append_eq_singleton_iff.mp h) (by simp [hp])⟩

/-- An absolute path, two levels below the root. -/
example : disk.Works machine ["/", "testcaseFiles", "b58f"] :=
  FileSystem.Rooted.works ⟨⟨["/"], by decide, by decide, by decide⟩,
    fun p _ _ => by unfold disk; dsimp only; split <;> exact nofun⟩

/-- A relative path that does not begin with the dot. -/
theorem not_works : ¬ disk.Works machine ["testcaseFiles", "b58f"] := by
  rintro ⟨stack, s', hreturns, -⟩
  rw [FileSystem.create_of_no_parent] at hreturns
  · cases hreturns
  · intro p hp hstarts
    obtain rfl : p = ["testcaseFiles"] :=
      (List.prefix_concat_iff.mp hstarts).resolve_right fun hnil => hp (List.prefix_nil.mp hnil)
    decide

end Fluffi.Shared.Folders
