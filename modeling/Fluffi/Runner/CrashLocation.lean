import Fluffi.Runner.InfoFiles
import Mathlib.Data.List.Pairwise

/-! Where a target crashed. A crash is known by its footprint, the module with the offset of
the address in it, which `getCrashRVA` takes from the sections that GDB lists and
`addrToRVAString` from the mappings of the process. Both compare strictly at the start of a
range, and both add or read its end modulo 2^64. -/

namespace Fluffi.Runner.Gdb

open Shared Systems

/-! ### The searches -/

/-- `std::hex << std::setw(8) << std::setfill('0')` -/
def addressDigits (address : UInt64) : Line := zeroFilled 8 (hexText address.toNat)

def footprint (name : Line) (offset : UInt64) : Line :=
  name ++ "+0x".toList ++ addressDigits offset

/-- `tModuleAddressesAndSizes` -/
structure ModuleAddressesAndSizes where
  name : Line
  base : UInt64
  size : UInt64

def getBaseAddressesAndSizes (parseInfoOutput : Line) : Option (List ModuleAddressesAndSizes) :=
  (parseInfoFiles parseInfoOutput).map (·.map fun m =>
    ⟨m.name ++ '/' :: m.segmentName, m.start, m.stop - m.start⟩)

def getCrashRVA (baseAddressesAndSizes : List ModuleAddressesAndSizes) (signalAddress : UInt64) :
    Line :=
  match baseAddressesAndSizes.find? fun m =>
      m.base < signalAddress && m.base + m.size > signalAddress with
  | some m => footprint m.name (signalAddress - m.base)
  | none => "unknown+0x".toList ++ addressDigits signalAddress

/-- `path::filename`, on a path without two slashes in a row. -/
def filename (path : Line) : Line :=
  if path = ['/'] then ['/']
  else if path.getLast? = some '/' then ['.']
  else afterLast '/' path

/-- The lines that `std::getline` reads. -/
def getlines (text : Line) : List Line :=
  let pieces := text.splitOn '\n'
  if pieces.getLast? = some [] then pieces.dropLast else pieces

/-- The loop of `addrToRVAString`; `none` where `stoull` throws. -/
def addrToRVALoop (addr : UInt64) : List Line → Option Line
  | [] => some []
  | line :: lines =>
    match splitString line [' '] with
    | range :: element :: elements =>
      match splitString range ['-'] with
      | start :: stop :: _ =>
        (stoull16 start).bind fun startAddress =>
          if startAddress < addr then
            (stoull16 stop).bind fun stopAddress =>
              if stopAddress > addr then
                some
                  (footprint (filename ((element :: elements).getLastD [])) (addr - startAddress))
              else addrToRVALoop addr lines
          else addrToRVALoop addr lines
      | _ => addrToRVALoop addr lines
    | _ => addrToRVALoop addr lines

/-- On the text of `/proc/<pid>/maps`. -/
def addrToRVAString (mapsFile : Line) (addr : UInt64) : Option Line :=
  (addrToRVALoop addr (getlines mapsFile)).map fun re =>
    if re ≠ [] then re else "0x".toList ++ addressDigits addr

/-! ### What a footprint tells -/

theorem notMem_addressDigits {c : Char} (hc : hexDigit c = none) (address : UInt64) :
    c ∉ addressDigits address :=
  notMem_zeroFilled 8 address.toNat hc

theorem addressDigits_inj {address address' : UInt64} :
    addressDigits address = addressDigits address' ↔ address = address' :=
  ⟨fun h => UInt64.toNat_inj.mp (zeroFilled_hexText_injective 8 h), fun h => h ▸ rfl⟩

/-- The last `+` separates the module from the offset. -/
theorem footprint_inj {name name' : Line} {offset offset' : UInt64} :
    footprint name offset = footprint name' offset' ↔ name = name' ∧ offset = offset' := by
  have hplus : ∀ offset, '+' ∉ "0x".toList ++ addressDigits offset := by
    intro offset
    simp [notMem_addressDigits (c := '+') (by decide) offset]
  have hsplit : ∀ (name : Line) offset, footprint name offset =
      name ++ '+' :: ("0x".toList ++ addressDigits offset) := by
    intro name offset
    simp [footprint]
  constructor
  · intro h
    rw [hsplit, hsplit] at h
    obtain ⟨hname, hoffset⟩ := append_cons_inj (hplus _) (hplus _) h
    exact ⟨hname, addressDigits_inj.mp (List.append_cancel_left hoffset)⟩
  · rintro ⟨rfl, rfl⟩
    rfl

/-! ### Ranges -/

namespace ModuleAddressesAndSizes

variable (m : ModuleAddressesAndSizes)

def Contains (address : UInt64) : Prop :=
  m.base.toNat ≤ address.toNat ∧ address.toNat < m.base.toNat + m.size.toNat

/-- Where the comparisons go wrong: at the start of a range, and anywhere in a range that
ends at 2^64. -/
def AtEdge (address : UInt64) : Prop :=
  address = m.base ∨ m.base.toNat + m.size.toNat = 2 ^ 64

instance (address : UInt64) : Decidable (m.Contains address) :=
  inferInstanceAs (Decidable (_ ∧ _))

instance (address : UInt64) : Decidable (m.AtEdge address) :=
  inferInstanceAs (Decidable (_ ∨ _))

theorem hit_iff {m : ModuleAddressesAndSizes} (hfits : m.base.toNat + m.size.toNat ≤ 2 ^ 64)
    (address : UInt64) : (m.base < address ∧ m.base + m.size > address) ↔
      m.Contains address ∧ ¬ m.AtEdge address := by
  have haddress := address.toNat_lt
  rw [Contains, AtEdge, not_or, UInt64.lt_iff_toNat_lt, gt_iff_lt, UInt64.lt_iff_toNat_lt,
    UInt64.toNat_add, ← UInt64.toNat_inj]
  rcases hfits.lt_or_eq with hlt | heq
  · rw [Nat.mod_eq_of_lt hlt]
    omega
  · rw [heq, Nat.mod_self]
    omega

/-- The comparison as the searches make it. -/
theorem found_iff {m : ModuleAddressesAndSizes} (hfits : m.base.toNat + m.size.toNat ≤ 2 ^ 64)
    (address : UInt64) : (m.base < address && m.base + m.size > address) = true ↔
      m.Contains address ∧ ¬ m.AtEdge address := by
  rw [Bool.and_eq_true, decide_eq_true_iff, decide_eq_true_iff]
  exact hit_iff hfits address

end ModuleAddressesAndSizes

/-- The report names a module that contains the address, with the offset in it, or it is the
raw address and no module does. -/
def Located (modules : List ModuleAddressesAndSizes) (raw : Line) (address : UInt64)
    (report : Line) : Prop :=
  (∃ m ∈ modules, m.Contains address ∧ report = footprint m.name (address - m.base)) ∨
    (∀ m ∈ modules, ¬ m.Contains address) ∧ report = raw

/-! ### Modules listed by GDB -/

/-- No section has the name that stands for none. -/
theorem name_ne_unknown {parseInfoOutput : Line} {modules : List ModuleAddressesAndSizes}
    (h : getBaseAddressesAndSizes parseInfoOutput = some modules) :
    ∀ m ∈ modules, m.name ≠ "unknown".toList := by
  obtain ⟨loadedFiles, -, rfl⟩ := Option.map_eq_some_iff.mp h
  intro m hm hname
  obtain ⟨e, -, rfl⟩ := List.mem_map.mp hm
  have hslash : '/' ∈ "unknown".toList := by
    rw [← hname]
    simp
  revert hslash
  decide

theorem getCrashRVA_located_iff {modules : List ModuleAddressesAndSizes}
    (hfits : ∀ m ∈ modules, m.base.toNat + m.size.toNat ≤ 2 ^ 64)
    (hnames : ∀ m ∈ modules, m.name ≠ "unknown".toList) (address : UInt64) :
    Located modules ("unknown+0x".toList ++ addressDigits address) address
        (getCrashRVA modules address) ↔
      (∀ m ∈ modules, ¬ m.Contains address) ∨
        ∃ m ∈ modules, m.Contains address ∧ ¬ m.AtEdge address := by
  unfold getCrashRVA
  split
  case h_1 m hfind =>
    have hm := List.mem_of_find?_eq_some hfind
    have hat := List.find?_some hfind
    have hinside := (ModuleAddressesAndSizes.found_iff (hfits m hm) address).mp hat
    exact iff_of_true (.inl ⟨m, hm, hinside.1, rfl⟩) (.inr ⟨m, hm, hinside⟩)
  case h_2 hfind =>
    have hnone : ∀ m ∈ modules, ¬ (m.Contains address ∧ ¬ m.AtEdge address) := by
      intro m hm h
      exact List.find?_eq_none.mp hfind m hm
        ((ModuleAddressesAndSizes.found_iff (hfits m hm) address).mpr h)
    constructor
    · rintro (⟨m, hm, -, heq⟩ | ⟨h, -⟩)
      · have hunknown : footprint "unknown".toList address = footprint m.name (address - m.base) :=
          heq
        exact absurd (footprint_inj.mp hunknown).1.symm (hnames m hm)
      · exact .inl h
    · rintro (h | ⟨m, hm, h⟩)
      · exact .inr ⟨h, rfl⟩
      · exact absurd h (hnone m hm)

/-! ### Mappings of a process -/

/-- A line of `/proc/<pid>/maps`: the range, then the permissions, offset, device and inode
with the blanks behind them, then the path, which anonymous memory does not have. -/
structure Mapping where
  base : UInt64
  size : UInt64
  fields : Line
  path : Line
  fits : base.toNat + size.toNat ≤ 2 ^ 64
  one_line : '\n' ∉ fields ∧ '\n' ∉ path
  path_end : path.getLast? ≠ some '/'
  path_slashes : ¬ "//".toList <:+: path

namespace Mapping

variable (e : Mapping)

def text : Line :=
  addressDigits e.base ++ '-' :: addressDigits (e.base + e.size) ++ ' ' :: e.fields ++
    ' ' :: e.path

def toModule : ModuleAddressesAndSizes := ⟨filename e.path, e.base, e.size⟩

end Mapping

/-- The memory of a process. Its mappings do not overlap. -/
structure ProcMaps where
  mappings : List Mapping
  disjoint : mappings.Pairwise fun e e' =>
    ∀ address, ¬ (e.toModule.Contains address ∧ e'.toModule.Contains address)

namespace ProcMaps

def text (maps : ProcMaps) : Line := maps.mappings.flatMap fun e => e.text ++ ['\n']

/-- The mappings of files. -/
def modules (maps : ProcMaps) : List ModuleAddressesAndSizes :=
  (maps.mappings.filter (·.path ≠ [])).map Mapping.toModule

end ProcMaps

theorem filename_of_getLast {path : Line} (h : path.getLast? ≠ some '/') :
    filename path = afterLast '/' path := by
  rw [filename, if_neg (by rintro rfl; exact h rfl), if_neg h]

/-- The last piece between blanks has the file's name exactly if the name has no blank. -/
theorem filename_afterLast_iff {path : Line} (hend : path.getLast? ≠ some '/') :
    filename (afterLast ' ' path) = filename path ↔ ' ' ∉ filename path := by
  have hend' : (afterLast ' ' path).getLast? ≠ some '/' := by
    intro h
    obtain ⟨u, hu⟩ := @afterLast_suffix _ _ ' ' path
    apply hend
    rw [← hu, List.getLast?_append, h]
    rfl
  rw [filename_of_getLast hend, filename_of_getLast hend']
  constructor
  · intro h
    rw [← h]
    exact fun hmem => notMem_afterLast path ((afterLast_suffix _).subset hmem)
  · intro h
    by_cases hslash : '/' ∈ path
    · obtain ⟨u, v, rfl, hv⟩ := exists_cut hslash
      rw [afterLast_append_cons u hv] at h ⊢
      by_cases hu : ' ' ∈ u
      · obtain ⟨x, y, rfl, hy⟩ := exists_cut hu
        have hyv : ' ' ∉ y ++ '/' :: v := by simp [hy, h]
        rw [List.append_assoc, List.cons_append, afterLast_append_cons x hyv,
          afterLast_append_cons y hv]
      · have huv : ' ' ∉ u ++ '/' :: v := by simp [hu, h]
        rw [afterLast_of_notMem huv, afterLast_append_cons u hv]
    · rw [afterLast_of_notMem hslash] at h ⊢
      rw [afterLast_of_notMem h, afterLast_of_notMem hslash]

theorem getlines_text (maps : ProcMaps) :
    getlines maps.text = maps.mappings.map Mapping.text := by
  have hline : ∀ e : Mapping, '\n' ∉ e.text := by
    intro e
    simp [Mapping.text, notMem_addressDigits (c := '\n') (by decide), e.one_line]
  have hsplit : maps.text.splitOn '\n' = maps.mappings.map Mapping.text ++ [[]] := by
    rw [ProcMaps.text]
    induction maps.mappings with
    | nil => rfl
    | cons e mappings ih =>
      rw [List.flatMap_cons, List.append_assoc, List.singleton_append,
        List.splitOn_append_cons_self_of_not_mem (hline e), ih]
      rfl
  rw [getlines, hsplit]
  simp

/-- What the loop makes of a line: it compares and names, or goes on. -/
theorem addrToRVALoop_cons (e : Mapping) (address : UInt64) (lines : List Line) :
    addrToRVALoop address (e.text :: lines) =
      if e.base < address ∧ e.base + e.size > address then
        some (footprint (filename (afterLast ' ' e.path)) (address - e.base))
      else addrToRVALoop address lines := by
  have hspace : ∀ address, ' ' ∉ addressDigits address := notMem_addressDigits (by decide)
  have hminus : ∀ address, '-' ∉ addressDigits address := notMem_addressDigits (by decide)
  have hread : ∀ address, stoull16 (addressDigits address) = some address := by
    intro address
    have h := @stoull16_zeroFilled 8 _ address.toNat_lt [] (by simp [NoDigit]) (by simp)
    rwa [List.append_nil, UInt64.ofNat_toNat] at h
  have hrange : splitString (addressDigits e.base ++ '-' :: addressDigits (e.base + e.size))
      ['-'] = [addressDigits e.base, addressDigits (e.base + e.size)] := by
    rw [splitString_singleton, List.splitOn_append_cons_self_of_not_mem (hminus _),
      List.splitOn_eq_singleton (hminus _)]
  obtain ⟨element, elements, helements⟩ :=
    List.exists_cons_of_ne_nil (List.splitOn_ne_nil ' ' (e.fields ++ ' ' :: e.path))
  have hline : splitString e.text [' '] =
      (addressDigits e.base ++ '-' :: addressDigits (e.base + e.size)) :: element :: elements := by
    have hword : ' ' ∉ addressDigits e.base ++ '-' :: addressDigits (e.base + e.size) := by
      simp [hspace]
    rw [splitString_singleton, Mapping.text, List.append_assoc, List.cons_append,
      List.splitOn_append_cons_self_of_not_mem hword, helements]
  have hlast : (element :: elements).getLastD [] = afterLast ' ' e.path := by
    rw [← helements, List.getLastD_eq_getLast?, getLast?_splitOn, afterLast_append_sep]
    rfl
  rw [addrToRVALoop]
  simp only [hline, hrange, hread, hlast, Option.bind_some]
  by_cases hstart : e.base < address <;> by_cases hstop : e.base + e.size > address <;>
    simp [hstart, hstop]

theorem addrToRVALoop_eq (mappings : List Mapping) (address : UInt64) :
    addrToRVALoop address (mappings.map Mapping.text) =
      some (match mappings.find? fun e => e.base < address && e.base + e.size > address with
        | some e => footprint (filename (afterLast ' ' e.path)) (address - e.base)
        | none => []) := by
  induction mappings with
  | nil => rfl
  | cons e mappings ih =>
    rw [List.map_cons, addrToRVALoop_cons, ih, List.find?_cons]
    by_cases h : e.base < address ∧ e.base + e.size > address
    · simp [h]
    · have hfalse : (decide (e.base < address) && decide (e.base + e.size > address)) = false := by
        simpa using h
      rw [if_neg h, hfalse]

/-- The mapping at an address: a module must be hit inside and have a name without a blank,
and anonymous memory must not be hit. -/
def ProcMaps.Nameable (maps : ProcMaps) (address : UInt64) : Prop :=
  ∀ e ∈ maps.mappings, e.toModule.Contains address →
    if e.path = [] then e.toModule.AtEdge address
    else ¬ e.toModule.AtEdge address ∧ ' ' ∉ filename e.path

theorem ProcMaps.eq_of_contains (maps : ProcMaps) {e e' : Mapping} (he : e ∈ maps.mappings)
    (he' : e' ∈ maps.mappings) {address : UInt64} (h : e.toModule.Contains address)
    (h' : e'.toModule.Contains address) : e = e' := by
  by_contra hne
  have : Std.Symm fun e e' : Mapping =>
      ∀ address, ¬ (e.toModule.Contains address ∧ e'.toModule.Contains address) :=
    ⟨fun _ _ hab address hba => hab address hba.symm⟩
  exact maps.disjoint.forall he he' hne address ⟨h, h'⟩

theorem ProcMaps.mem_modules {maps : ProcMaps} {m : ModuleAddressesAndSizes} :
    m ∈ maps.modules ↔ ∃ e ∈ maps.mappings, e.path ≠ [] ∧ e.toModule = m := by
  simp [ProcMaps.modules, and_assoc]

theorem footprint_ne_raw (name : Line) (offset address : UInt64) :
    footprint name offset ≠ "0x".toList ++ addressDigits address := by
  intro h
  have hplus : '+' ∈ footprint name offset := by simp [footprint]
  rw [h] at hplus
  simp [notMem_addressDigits (c := '+') (by decide) address] at hplus

/-- The comparison of `addrToRVALoop`. -/
theorem Mapping.found_iff (e : Mapping) (address : UInt64) :
    (e.base < address && e.base + e.size > address) = true ↔
      e.toModule.Contains address ∧ ¬ e.toModule.AtEdge address :=
  @ModuleAddressesAndSizes.found_iff e.toModule e.fits address

/-- An address at which nothing is found is reported as it is, which is right if only
anonymous memory contains it. -/
theorem ProcMaps.located_raw_iff (maps : ProcMaps) {address : UInt64}
    (hedge : ∀ e ∈ maps.mappings, e.toModule.Contains address → e.toModule.AtEdge address) :
    Located maps.modules ("0x".toList ++ addressDigits address) address
        ("0x".toList ++ addressDigits address) ↔ maps.Nameable address := by
  constructor
  · rintro (⟨m, -, -, heq⟩ | ⟨hnone, -⟩)
    · exact absurd heq.symm (footprint_ne_raw _ _ _)
    · intro e he hcontains
      have hpath : e.path = [] := by
        by_contra hpath
        exact hnone _ (ProcMaps.mem_modules.mpr ⟨e, he, hpath, rfl⟩) hcontains
      rw [if_pos hpath]
      exact hedge e he hcontains
  · intro hnameable
    refine .inr ⟨fun m hm hcontains => ?_, rfl⟩
    obtain ⟨e, he, hpath, rfl⟩ := ProcMaps.mem_modules.mp hm
    have hinside := hnameable e he hcontains
    rw [if_neg hpath] at hinside
    exact hinside.1 (hedge e he hcontains)

/-- The mapping that is found is named rightly if it has a path and no blank cuts its name. -/
theorem ProcMaps.located_footprint_iff (maps : ProcMaps) {address : UInt64} {e : Mapping}
    (he : e ∈ maps.mappings) (hcontains : e.toModule.Contains address)
    (hinside : ¬ e.toModule.AtEdge address) :
    Located maps.modules ("0x".toList ++ addressDigits address) address
        (footprint (filename (afterLast ' ' e.path)) (address - e.base)) ↔
      maps.Nameable address := by
  constructor
  · rintro (⟨m, hm, hcontains', heq⟩ | ⟨-, heq⟩)
    · obtain ⟨e', he', hpath, rfl⟩ := ProcMaps.mem_modules.mp hm
      obtain rfl := maps.eq_of_contains he he' hcontains hcontains'
      intro e' he' hcontains'
      obtain rfl := maps.eq_of_contains he he' hcontains hcontains'
      rw [if_neg hpath]
      exact ⟨hinside, (filename_afterLast_iff e.path_end).mp (footprint_inj.mp heq).1⟩
    · exact absurd heq (footprint_ne_raw _ _ _)
  · intro hnameable
    have hname := hnameable e he hcontains
    split at hname
    · exact absurd hname hinside
    case isFalse hpath =>
      refine .inl ⟨e.toModule, ProcMaps.mem_modules.mpr ⟨e, he, hpath, rfl⟩, hcontains, ?_⟩
      exact footprint_inj.mpr ⟨(filename_afterLast_iff e.path_end).mpr hname.2, rfl⟩

theorem addrToRVAString_located_iff (maps : ProcMaps) (address : UInt64) :
    (∃ report, addrToRVAString maps.text address = some report ∧
      Located maps.modules ("0x".toList ++ addressDigits address) address report) ↔
        maps.Nameable address := by
  rw [addrToRVAString, getlines_text, addrToRVALoop_eq]
  simp only [Option.map_some, Option.some.injEq, exists_eq_left']
  cases hfind : maps.mappings.find? fun e => e.base < address && e.base + e.size > address with
  | none =>
    simp only [ne_eq, not_true_eq_false, if_false]
    apply maps.located_raw_iff
    intro e he hcontains
    by_contra hinside
    exact List.find?_eq_none.mp hfind e he ((e.found_iff address).mpr ⟨hcontains, hinside⟩)
  | some e =>
    have hat := List.find?_some hfind
    obtain ⟨hcontains, hinside⟩ := (e.found_iff address).mp hat
    have hne : footprint (filename (afterLast ' ' e.path)) (address - e.base) ≠ [] := by
      simp [footprint]
    rw [if_pos hne]
    exact maps.located_footprint_iff (List.mem_of_find?_eq_some hfind) hcontains hinside

/-- Both searches report the location of every crash, except those at an edge of a range, in
anonymous memory and in a file whose name has a blank; and a footprint is as good as the
module and the offset in it. -/
theorem crash_location_iff {modules : List ModuleAddressesAndSizes}
    (hfits : ∀ m ∈ modules, m.base.toNat + m.size.toNat ≤ 2 ^ 64)
    (hnames : ∀ m ∈ modules, m.name ≠ "unknown".toList) (maps : ProcMaps) (address : UInt64) :
    (Located modules ("unknown+0x".toList ++ addressDigits address) address
        (getCrashRVA modules address) ↔
      (∀ m ∈ modules, ¬ m.Contains address) ∨
        ∃ m ∈ modules, m.Contains address ∧ ¬ m.AtEdge address) ∧
      ((∃ report, addrToRVAString maps.text address = some report ∧
          Located maps.modules ("0x".toList ++ addressDigits address) address report) ↔
        maps.Nameable address) ∧
      ∀ name name' offset offset', footprint name offset = footprint name' offset' ↔
        name = name' ∧ offset = offset' :=
  ⟨getCrashRVA_located_iff hfits hnames address, addrToRVAString_located_iff maps address,
    fun _ _ _ _ => footprint_inj⟩

def codeModule : ModuleAddressesAndSizes := ⟨"liba.so/.text".toList, 0x400000, 0x1000⟩

def codeMapping : Mapping where
  base := 0x400000
  size := 0x1000
  fields := "r-xp 00000000 08:01 1234 ".toList
  path := "/lib/liba.so".toList
  fits := by decide
  one_line := by decide
  path_end := by decide
  path_slashes := by decide

/-- Inside of a range both searches find its module. -/
theorem crash_location_codeModule :
    Located [codeModule] ("unknown+0x".toList ++ addressDigits 0x400010) 0x400010
        (getCrashRVA [codeModule] 0x400010) ∧
      ∃ report, addrToRVAString (ProcMaps.text ⟨[codeMapping], by simp⟩) 0x400010 = some report ∧
        Located (ProcMaps.modules ⟨[codeMapping], by simp⟩)
          ("0x".toList ++ addressDigits 0x400010) 0x400010 report := by
  have h := @crash_location_iff [codeModule] (by decide) (by decide) ⟨[codeMapping], by simp⟩
    0x400010
  refine ⟨h.1.mpr (.inr ⟨codeModule, List.mem_singleton_self _, by decide, by decide⟩),
    h.2.1.mpr fun e he _ => ?_⟩
  obtain rfl := List.mem_singleton.mp he
  decide

/-- The first address of a module is in it, and is reported as it is. -/
theorem crash_at_base :
    codeModule.Contains 0x400000 ∧
      getCrashRVA [codeModule] 0x400000 = "unknown+0x00400000".toList ∧
      addrToRVAString (ProcMaps.text ⟨[codeMapping], by simp⟩) 0x400000 =
        some "0x00400000".toList ∧
      ¬ Located [codeModule] ("unknown+0x".toList ++ addressDigits 0x400000) 0x400000
        (getCrashRVA [codeModule] 0x400000) := by
  refine ⟨by decide, by decide, by decide +kernel, ?_⟩
  rintro (⟨m, hm, -, heq⟩ | ⟨hnone, -⟩)
  · rw [List.mem_singleton.mp hm] at heq
    revert heq
    decide
  · exact hnone codeModule (List.mem_singleton_self _) (by decide)

end Fluffi.Runner.Gdb
