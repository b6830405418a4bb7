import Fluffi.CaRRoT.MinimizeStrings

/-! The strings of a file. The digesters add their finds to one list, in an order that nobody
knows; what the sweep leaves of it are the runs of UTF-8, and none of UTF-16. -/

namespace Fluffi.CaRRoT

open Fluffi.Systems Fluffi.Shared

/-- The digesters have added their finds, in some order. -/
def Added (strlim : ℕ) (contents : Bytes) (ar : List Text) : Prop :=
  ar.Perm (asciidigester strlim contents ++ utf8digester strlim contents ++
    unicodedigester strlim contents)

/-! ### Runs -/

/-- Whatever was found, what is left is of it, and is not labelled unicode. -/
theorem minimizeStrings_mem {size : ℕ} {ar S : List Text}
    (h : minimizeStrings size ar = some S) {t : Text} (ht : t ∈ S) :
    t ∈ ar ∧ t.enc ≠ .unicode := by
  obtain ⟨tables, htables, rfl⟩ := Option.map_eq_some_iff.mp h
  have hholds := fillTables_holds htables
  obtain ⟨i, haa | hau⟩ := mem_sweep ht
  · rw [hholds.entry_aa] at haa
    obtain ⟨hmem, henc⟩ := mem_of_lastAt haa
    exact ⟨hmem, fun h => Encoding.noConfusion (henc.symm.trans h)⟩
  · rw [hholds.entry_au] at hau
    obtain ⟨hmem, henc⟩ := mem_of_lastAt hau
    exact ⟨hmem, fun h => Encoding.noConfusion (henc.symm.trans h)⟩

section Runs

variable {strlim : ℕ} {contents : Bytes}

theorem asciiMarker_takes {n : ℕ} :
    asciiMarker.Takes contents n ↔
      ∃ b, contents[n]? = some b ∧ (isASCIIprintable b || isASCIIcontrol b) = true := by
  rw [Marker.Takes, Option.any_eq_true]
  rfl

/-- Whatever its state, the digester of UTF-8 takes the bytes of ASCII. -/
theorem utf8Marker_takes_of_ascii {n : ℕ} (h : asciiMarker.Takes contents n) :
    utf8Marker.Takes contents n := by
  obtain ⟨b, hb, hascii⟩ := asciiMarker_takes.mp h
  rw [Marker.takes_iff hb]
  change ((utf8Marker.stateAt contents n).take b).isSome = true
  rw [Utf8State.take, if_pos hascii]
  rfl

/-- A run of UTF-8 without a byte that is not of ASCII. -/
def PureAscii (contents : Bytes) (a b : ℕ) : Prop :=
  ∀ i, a ≤ i → i < b → asciiMarker.Takes contents i

theorem pureAscii_iff {a b : ℕ} (h : IsMaximalRun (utf8Marker.Takes contents) a b) :
    PureAscii contents a b ↔ IsMaximalRun (asciiMarker.Takes contents) a b := by
  constructor
  · intro hpure
    exact ⟨h.lt, hpure, fun i hi ht => h.before i hi (utf8Marker_takes_of_ascii ht),
      fun ht => h.after (utf8Marker_takes_of_ascii ht)⟩
  · exact fun hrun => hrun.inside

/-- Every run of ASCII lies in a run of UTF-8. -/
theorem exists_utf8_run {c d : ℕ} (h : IsMaximalRun (asciiMarker.Takes contents) c d) :
    ∃ a b, IsMaximalRun (utf8Marker.Takes contents) a b ∧ a ≤ c ∧ d ≤ b :=
  h.exists_superset (fun _ => utf8Marker_takes_of_ascii)
    fun _ => Marker.not_takes_of_length_le (l := contents)

/-- The entries of the tables are the finds of the digesters. -/
structure FoundTables (strlim : ℕ) (contents : Bytes) (tables : Tables) : Prop where
  entry_aa : ∀ i t, entry tables.aa i = some t ↔ t ∈ asciidigester strlim contents ∧ t.pos = i
  entry_au : ∀ i t, entry tables.au i = some t ↔ t ∈ utf8digester strlim contents ∧ t.pos = i

theorem enc_of_mem {σ : Type*} {enc : Encoding} {m : Marker σ UInt8} {t : Text}
    (h : t ∈ digest enc strlim m contents) : t.enc = enc := by
  rw [digest_eq] at h
  obtain ⟨run, -, rfl⟩ := List.mem_map.mp h
  rfl

theorem eq_of_mem_digest {σ : Type*} {enc : Encoding} {m : Marker σ UInt8} {t u : Text}
    (hlim : 1 ≤ strlim) (ht : t ∈ digest enc strlim m contents)
    (hu : u ∈ digest enc strlim m contents) (hpos : t.pos = u.pos) : t = u := by
  obtain ⟨hrun, -, henc, hterm⟩ := (mem_digest hlim).mp ht
  obtain ⟨hrun', -, henc', hterm'⟩ := (mem_digest hlim).mp hu
  rw [hpos] at hrun
  have hstop := hrun.stop_unique hrun'
  have hlen : t.len = u.len := by omega
  cases t with
  | mk enc pos len term =>
    cases u with
    | mk enc' pos' len' term' =>
      simp only at hpos hlen henc henc' hterm hterm'
      rw [henc, henc', hpos, hlen, hterm, hterm', hpos, hlen]

theorem pos_lt_of_mem {σ : Type*} {enc : Encoding} {m : Marker σ UInt8} {t : Text}
    (hlim : 1 ≤ strlim) (ht : t ∈ digest enc strlim m contents) : t.pos < contents.length := by
  obtain ⟨hrun, hlen, -, -⟩ := (mem_digest hlim).mp ht
  have := Marker.stop_le_length hrun
  omega

/-- What the digester of an encoding finds. -/
def foundBy (strlim : ℕ) (contents : Bytes) : Encoding → List Text
  | .ascii => asciidigester strlim contents
  | .utf8 => utf8digester strlim contents
  | .unicode => unicodedigester strlim contents

theorem enc_of_foundBy {enc : Encoding} {t : Text} (h : t ∈ foundBy strlim contents enc) :
    t.enc = enc := by
  cases enc with
  | ascii => exact enc_of_mem h
  | utf8 => exact enc_of_mem h
  | unicode => exact enc_of_mem h

section Added

variable {ar : List Text} (hlim : 1 ≤ strlim) (har : Added strlim contents ar)
include har

/-- Each string of the list is from the digester of its encoding. -/
theorem mem_added {t : Text} : t ∈ ar ↔ t ∈ foundBy strlim contents t.enc := by
  rw [har.mem_iff, List.mem_append, List.mem_append]
  constructor
  · rintro ((h | h) | h)
    · rwa [enc_of_mem h]
    · rwa [enc_of_mem h]
    · rwa [enc_of_mem h]
  · intro h
    cases henc : t.enc with
    | ascii => exact .inl (.inl (by rwa [henc] at h))
    | utf8 => exact .inl (.inr (by rwa [henc] at h))
    | unicode => exact .inr (by rwa [henc] at h)

include hlim

theorem added_unique {t u : Text} (ht : t ∈ ar) (hu : u ∈ ar) (henc : t.enc = u.enc)
    (hpos : t.pos = u.pos) : t = u := by
  have ht' := (mem_added har).mp ht
  have hu' := (mem_added har).mp hu
  rw [← henc] at hu'
  cases h : t.enc with
  | ascii =>
    rw [h] at ht' hu'
    exact eq_of_mem_digest hlim ht' hu' hpos
  | utf8 =>
    rw [h] at ht' hu'
    exact eq_of_mem_digest hlim ht' hu' hpos
  | unicode =>
    rw [h] at ht' hu'
    exact eq_of_mem_digest hlim ht' hu' hpos

theorem added_pos_lt {t : Text} (ht : t ∈ ar) : t.pos < contents.length := by
  have h := (mem_added har).mp ht
  cases henc : t.enc with
  | ascii => exact pos_lt_of_mem hlim (by rwa [henc] at h)
  | utf8 => exact pos_lt_of_mem hlim (by rwa [henc] at h)
  | unicode => exact pos_lt_of_mem hlim (by rwa [henc] at h)

theorem lastAt_added {enc : Encoding} {i : ℕ} {t : Text} :
    lastAt enc i ar = some t ↔ t ∈ foundBy strlim contents enc ∧ t.pos = i := by
  rw [lastAt_eq_some fun t ht u hu => added_unique hlim har ht hu, mem_added har]
  constructor
  · rintro ⟨ht, henc, hpos⟩
    exact ⟨henc ▸ ht, hpos⟩
  · rintro ⟨ht, hpos⟩
    have henc := enc_of_foundBy ht
    exact ⟨henc.symm ▸ ht, henc, hpos⟩

theorem fillTables_added :
    ∃ tables, fillTables contents.length ar = some tables ∧
      FoundTables strlim contents tables := by
  obtain ⟨tables, htables⟩ := fillTables_isSome fun t ht => added_pos_lt hlim har ht
  have hholds := fillTables_holds htables
  refine ⟨tables, htables, fun i t => ?_, fun i t => ?_⟩
  · rw [hholds.entry_aa]
    exact lastAt_added hlim har
  · rw [hholds.entry_au]
    exact lastAt_added hlim har

end Added

/-- The strings that are left are in the file, whatever the minimal length is. -/
theorem inside_of_minimizeStrings {ar S : List Text} (har : Added strlim contents ar)
    (hS : minimizeStrings contents.length ar = some S) {t : Text} (ht : t ∈ S) :
    t.pos + t.len ≤ contents.length := by
  have h := (mem_added har).mp (minimizeStrings_mem hS ht).1
  cases henc : t.enc with
  | ascii => exact stop_le_of_mem_digest (by rwa [henc] at h)
  | utf8 => exact stop_le_of_mem_digest (by rwa [henc] at h)
  | unicode => exact stop_le_of_mem_digest (by rwa [henc] at h)

/-! ### What is left -/

/-- A string that the file contains, for a minimal length. -/
structure IsString (strlim : ℕ) (contents : Bytes) (t : Text) : Prop where
  run : IsMaximalRun (utf8Marker.Takes contents) t.pos (t.pos + t.len)
  len : strlim ≤ t.len
  ascii : PureAscii contents t.pos (t.pos + t.len) → t.enc = .ascii
  utf8 : ¬PureAscii contents t.pos (t.pos + t.len) → t.enc = .utf8
  term : t.term = terminated contents (t.pos + t.len)

/-- A run is the string at its position. -/
theorem exists_isString {pos len : ℕ}
    (hrun : IsMaximalRun (utf8Marker.Takes contents) pos (pos + len)) (hlen : strlim ≤ len) :
    ∃ t, IsString strlim contents t ∧ t.pos = pos ∧ t.len = len := by
  by_cases hpure : PureAscii contents pos (pos + len)
  · exact ⟨⟨.ascii, pos, len, terminated contents (pos + len)⟩,
      ⟨hrun, hlen, fun _ => rfl, fun hnot => absurd hpure hnot, rfl⟩, rfl, rfl⟩
  · exact ⟨⟨.utf8, pos, len, terminated contents (pos + len)⟩,
      ⟨hrun, hlen, fun h => absurd h hpure, fun _ => rfl, rfl⟩, rfl, rfl⟩

theorem IsString.eq_of_run {t u : Text} (ht : IsString strlim contents t)
    (hu : IsString strlim contents u) (hpos : t.pos = u.pos) (hlen : t.len = u.len) : t = u := by
  have henc : t.enc = u.enc := by
    by_cases hpure : PureAscii contents t.pos (t.pos + t.len)
    · rw [ht.ascii hpure, hu.ascii (by rwa [hpos, hlen] at hpure)]
    · rw [ht.utf8 hpure, hu.utf8 (by rwa [hpos, hlen] at hpure)]
  have hterm : t.term = u.term := by rw [ht.term, hu.term, hpos, hlen]
  cases t with
  | mk enc pos len term =>
    cases u with
    | mk enc' pos' len' term' =>
      simp only at hpos hlen henc hterm
      rw [hpos, hlen, henc, hterm]

variable {tables : Tables} {i : ℕ} {t : Text}

/-- What is kept of UTF-8 are the runs that have a byte which is not of ASCII. -/
theorem FoundTables.kept_iff (hlim : 1 ≤ strlim) (h : FoundTables strlim contents tables) :
    kept tables i = some t ↔
      t ∈ utf8digester strlim contents ∧ t.pos = i ∧
        ¬PureAscii contents t.pos (t.pos + t.len) := by
  rw [kept, undoubled_eq_some, h.entry_au, and_assoc]
  refine and_congr_right fun ht => and_congr_right fun hpos => ?_
  obtain ⟨hrun, hlen, -, -⟩ := (mem_digest hlim).mp ht
  rw [pureAscii_iff hrun]
  constructor
  · intro hnot hascii
    have ha : (⟨.ascii, t.pos, t.len, terminated contents (t.pos + t.len)⟩ : Text) ∈
        asciidigester strlim contents := (mem_digest hlim).mpr ⟨hascii, hlen, rfl, rfl⟩
    exact hnot _ ((h.entry_aa i _).mpr ⟨ha, hpos⟩) ⟨rfl, rfl⟩
  · rintro hnot a ha ⟨hpos', hlen'⟩
    obtain ⟨hascii, -⟩ := (mem_digest hlim).mp ((h.entry_aa i a).mp ha).1
    rw [← hpos', ← hlen'] at hascii
    exact hnot hascii

theorem FoundTables.apart (hlim : 1 ≤ strlim) (h : FoundTables strlim contents tables) :
    Apart tables where
  pos_len hu := by
    obtain ⟨hmem, -, -⟩ := (h.kept_iff hlim).mp hu
    exact hlim.trans ((mem_digest hlim).mp hmem).2.1
  apart hu hv hij := by
    obtain ⟨hmem, hpos, -⟩ := (h.kept_iff hlim).mp hu
    obtain ⟨hmem', hpos', -⟩ := (h.kept_iff hlim).mp hv
    have hstop := ((mem_digest hlim).mp hmem).1.stop_lt_start ((mem_digest hlim).mp hmem').1
      (by omega)
    omega

/-- A string of ASCII is covered, unless it is a run of UTF-8. -/
theorem FoundTables.covered_iff (hlim : 1 ≤ strlim) (h : FoundTables strlim contents tables)
    (ht : t ∈ asciidigester strlim contents) :
    Covered tables t.pos ↔ ¬IsMaximalRun (utf8Marker.Takes contents) t.pos (t.pos + t.len) := by
  obtain ⟨hascii, hlen, -, -⟩ := (mem_digest hlim).mp ht
  constructor
  · rintro ⟨j, u, hj, hu, hcover⟩ hrun
    obtain ⟨hmem, rfl, hpure⟩ := (h.kept_iff hlim).mp hu
    obtain ⟨hrun', -⟩ := (mem_digest hlim).mp hmem
    rcases hj.lt_or_eq with hlt | heq
    · have := hrun'.stop_lt_start hrun hlt
      omega
    · rw [← heq] at hrun hascii
      rw [hrun'.stop_unique hrun] at hpure
      exact hpure hascii.inside
  · intro hnot
    obtain ⟨a, b, hrun, ha, hb⟩ := exists_utf8_run hascii
    have hstop : a + (b - a) = b := by have := hrun.lt; omega
    refine ⟨a, ⟨.utf8, a, b - a, terminated contents b⟩, ha, ?_, ?_⟩
    · rw [h.kept_iff hlim]
      refine ⟨(mem_digest hlim).mpr ?_, rfl, ?_⟩
      · simp only [hstop]
        exact ⟨hrun, by omega, trivial, trivial⟩
      · simp only [hstop]
        intro hpure
        obtain ⟨rfl, rfl⟩ := hascii.eq_of_mem ((pureAscii_iff hrun).mp hpure)
          ⟨le_rfl, hascii.lt⟩ ⟨ha, by have := hascii.lt; omega⟩
        exact hnot hrun
    · simp only
      omega

theorem FoundTables.left_iff (hlim : 1 ≤ strlim) (h : FoundTables strlim contents tables) :
    Left tables i t ↔ t.pos = i ∧ IsString strlim contents t := by
  rw [Left, h.kept_iff hlim, h.entry_aa]
  constructor
  · rintro (⟨hmem, hpos, hpure⟩ | ⟨⟨hmem, rfl⟩, hcovered⟩)
    · obtain ⟨hrun, hlen, henc, hterm⟩ := (mem_digest hlim).mp hmem
      exact ⟨hpos, hrun, hlen, fun hpure' => absurd hpure' hpure, fun _ => henc, hterm⟩
    · rw [h.covered_iff hlim hmem, not_not] at hcovered
      obtain ⟨hascii, hlen, henc, hterm⟩ := (mem_digest hlim).mp hmem
      exact ⟨rfl, hcovered, hlen, fun _ => henc, fun hpure => absurd hascii.inside hpure, hterm⟩
  · rintro ⟨hpos, hstring⟩
    by_cases hpure : PureAscii contents t.pos (t.pos + t.len)
    · have hmem : t ∈ asciidigester strlim contents := (mem_digest hlim).mpr
        ⟨(pureAscii_iff hstring.run).mp hpure, hstring.len, hstring.ascii hpure, hstring.term⟩
      refine .inr ⟨⟨hmem, hpos⟩, ?_⟩
      rw [← hpos, h.covered_iff hlim hmem, not_not]
      exact hstring.run
    · exact .inl ⟨(mem_digest hlim).mpr
        ⟨hstring.run, hstring.len, hstring.utf8 hpure, hstring.term⟩, hpos, hpure⟩

/-- Whatever the order of the finds, the strings that are left are those of the file, one behind
the other. -/
theorem minimizeStrings_added {ar : List Text} (hlim : 1 ≤ strlim)
    (har : Added strlim contents ar) :
    ∃ S, minimizeStrings contents.length ar = some S ∧
      (∀ t, t ∈ S ↔ IsString strlim contents t) ∧
      S.Pairwise fun t u => t.pos + t.len < u.pos := by
  obtain ⟨tables, htables, hfound⟩ := fillTables_added hlim har
  have hsweep := sweep_at (hfound.apart hlim) contents.length
  refine ⟨_, by rw [minimizeStrings, htables, Option.map_some], fun t => ?_, ?_⟩
  · rw [hsweep.mem_ar]
    constructor
    · rintro ⟨i, -, hleft⟩
      exact ((hfound.left_iff hlim).mp hleft).2
    · intro ht
      have := Marker.stop_le_length ht.run
      exact ⟨t.pos, by have := ht.run.lt; omega, (hfound.left_iff hlim).mpr ⟨rfl, ht⟩⟩
  · refine hsweep.sorted.imp ?_
    rintro t u ⟨i, j, hij, hleft, hleft'⟩
    obtain ⟨rfl, ht⟩ := (hfound.left_iff hlim).mp hleft
    obtain ⟨rfl, hu⟩ := (hfound.left_iff hlim).mp hleft'
    exact ht.run.stop_lt_start hu.run hij

/-- The strings that are left are sorted, disjoint and in the file. They are the maximal runs
that the digester of UTF-8 accepts, and each run of ASCII is inside of one of them. -/
theorem minimizeStrings_runs {ar : List Text} (hlim : 1 ≤ strlim)
    (har : Added strlim contents ar) :
    ∃ S, minimizeStrings contents.length ar = some S ∧
      (S.Pairwise fun t u => t.pos < u.pos ∧ t.pos + t.len ≤ u.pos) ∧
      (∀ t ∈ S, t.pos + t.len ≤ contents.length ∧ (t.enc = .ascii ∨ t.enc = .utf8)) ∧
      (∀ pos len, (∃ t ∈ S, t.pos = pos ∧ t.len = len) ↔
        IsMaximalRun (utf8Marker.Takes contents) pos (pos + len) ∧ strlim ≤ len) ∧
      (∀ t ∈ S, t.enc = .ascii ↔ ∀ i, t.pos ≤ i → i < t.pos + t.len →
        ∃ b, contents[i]? = some b ∧ (isASCIIprintable b || isASCIIcontrol b) = true) ∧
      (∀ c d, c < d → strlim ≤ d - c →
        (∀ i, c ≤ i → i < d →
          ∃ b, contents[i]? = some b ∧ (isASCIIprintable b || isASCIIcontrol b) = true) →
        ∃! t, t ∈ S ∧ t.pos ≤ c ∧ d ≤ t.pos + t.len) := by
  obtain ⟨S, hS, hmem, hsorted⟩ := minimizeStrings_added hlim har
  have hpure : ∀ a b, PureAscii contents a b ↔ ∀ i, a ≤ i → i < b →
      ∃ c, contents[i]? = some c ∧ (isASCIIprintable c || isASCIIcontrol c) = true := by
    intro a b
    simp only [PureAscii, asciiMarker_takes]
  refine ⟨S, hS, hsorted.imp fun h => ⟨by omega, h.le⟩, ?_, ?_, ?_, ?_⟩
  · intro t ht
    have hstring := (hmem t).mp ht
    refine ⟨Marker.stop_le_length hstring.run, ?_⟩
    by_cases h : PureAscii contents t.pos (t.pos + t.len)
    · exact .inl (hstring.ascii h)
    · exact .inr (hstring.utf8 h)
  · intro pos len
    constructor
    · rintro ⟨t, ht, rfl, rfl⟩
      have hstring := (hmem t).mp ht
      exact ⟨hstring.run, hstring.len⟩
    · rintro ⟨hrun, hlen⟩
      obtain ⟨t, ht, hpos, hlen'⟩ := exists_isString hrun hlen
      exact ⟨t, (hmem t).mpr ht, hpos, hlen'⟩
  · intro t ht
    have hstring := (hmem t).mp ht
    rw [← hpure]
    refine ⟨fun henc => ?_, hstring.ascii⟩
    by_contra h
    rw [hstring.utf8 h] at henc
    cases henc
  · intro c d hcd hlen hascii
    rw [← hpure] at hascii
    obtain ⟨a, b, hrun, hac, hcb⟩ := exists_isMaximalRun
      (utf8Marker_takes_of_ascii (hascii c le_rfl hcd))
      fun _ => Marker.not_takes_of_length_le (l := contents)
    have hdb : d ≤ b := by
      by_contra hbd
      exact hrun.after (utf8Marker_takes_of_ascii (hascii b (by omega) (by omega)))
    obtain ⟨len, rfl⟩ := Nat.exists_eq_add_of_lt hrun.lt
    obtain ⟨t, ht, rfl, hlen'⟩ := exists_isString hrun (by omega : strlim ≤ len + 1)
    refine ⟨t, ⟨(hmem t).mpr ht, hac, by omega⟩, ?_⟩
    rintro u ⟨hu, huc, hud⟩
    have hu' := (hmem u).mp hu
    obtain ⟨hpos, hend⟩ := hu'.run.eq_of_mem (i := c) ht.run ⟨huc, by omega⟩ ⟨hac, by omega⟩
    exact hu'.eq_of_run ht hpos (by omega)

/-- A byte of UTF-8 that starts a character, and one of ASCII behind a zero byte. -/
theorem minimizeStrings_runs_mixed :
    ∃ S, minimizeStrings 5 [⟨.utf8, 0, 3, true⟩, ⟨.ascii, 0, 1, false⟩, ⟨.utf8, 4, 1, true⟩,
        ⟨.ascii, 4, 1, true⟩] = some S ∧
      ∃! t, t ∈ S ∧ t.pos ≤ 4 ∧ 5 ≤ t.pos + t.len := by
  obtain ⟨S, hS, -, -, -, -, hascii⟩ := @minimizeStrings_runs 1 [0x41, 0xC3, 0xA4, 0x00, 0x41]
    [⟨.utf8, 0, 3, true⟩, ⟨.ascii, 0, 1, false⟩, ⟨.utf8, 4, 1, true⟩, ⟨.ascii, 4, 1, true⟩]
    le_rfl (by unfold Added; decide)
  exact ⟨S, hS, hascii 4 5 (by decide) (by decide) (by decide)⟩

end Runs

/-! ### UTF-16 -/

/-- A maximal run of `k` pairs of a character of ASCII and a zero byte, at `a`. What is beside it
cannot continue it. -/
structure IsWideRun (contents : Bytes) (a k : ℕ) : Prop where
  pos : 1 ≤ k
  char : ∀ i < k, ∃ c, contents[a + 2 * i]? = some c ∧
    (isASCIIprintable c || isASCIIcontrol c) = true
  zero : ∀ i < k, contents[a + 2 * i + 1]? = some 0x00
  before : ∀ i, i + 1 = a → contents[i]? ≠ some 0x00
  after : ∀ c, contents[a + 2 * k]? = some c → (isASCIIprintable c || isASCIIcontrol c) = false

/-- Each run of UTF-16 of at least the minimal length is covered by a string that is labelled so
and starts with it. -/
def FindsUnicode (strlim : ℕ) (contents : Bytes) : Prop :=
  ∀ ar, Added strlim contents ar → ∀ a k, IsWideRun contents a k → strlim ≤ 2 * k →
    ∃ S, minimizeStrings contents.length ar = some S ∧
      ∃ t ∈ S, t.enc = .unicode ∧ t.pos = a ∧ a + 2 * k ≤ t.pos + t.len

/-- The runs of UTF-16 are covered only where there are none. -/
theorem findsUnicode_iff (strlim : ℕ) (contents : Bytes) :
    FindsUnicode strlim contents ↔ ∀ a k, IsWideRun contents a k → 2 * k < strlim := by
  constructor
  · intro hfinds a k hrun
    by_contra hlen
    obtain ⟨S, hS, t, ht, henc, -⟩ := hfinds _ (List.Perm.refl _) a k hrun (by omega)
    exact (minimizeStrings_mem hS ht).2 henc
  · intro hnone ar _ a k hrun hlen
    have := hnone a k hrun
    omega

/-- Three letters in UTF-16, as a whole file, with the default of the minimal length. -/
theorem not_findsUnicode_letters :
    ¬FindsUnicode 5 [0x41, 0x00, 0x42, 0x00, 0x43, 0x00] := by
  intro hfinds
  have hchar : ∀ i < 3, ([0x41, 0x00, 0x42, 0x00, 0x43, 0x00] : Bytes)[0 + 2 * i]?.any
      (fun c => isASCIIprintable c || isASCIIcontrol c) = true := by decide
  obtain ⟨S, hS, t, ht, henc, -⟩ := hfinds _ (List.Perm.refl _) 0 3
    ⟨by decide, fun i hi => (Option.any_eq_true _ _).mp (hchar i hi), by decide,
      fun i hi => absurd hi i.succ_ne_zero, fun c hc => absurd hc.symm (Option.some_ne_none c)⟩
    (by decide)
  exact (minimizeStrings_mem hS ht).2 henc

end Fluffi.CaRRoT
