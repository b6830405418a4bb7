import Mathlib.Data.List.Basic
import Fluffi.Shared.Files
import Fluffi.Systems.MaximalRuns

/-! The string scanners of CaRRoT. Each reads the file byte by byte and collects the bytes that
it takes; a byte that it does not take ends the string that is open, and belongs to none. -/

namespace Fluffi.CaRRoT

open Fluffi.Systems Fluffi.Shared

inductive Encoding
  | ascii
  | utf8
  | unicode
  deriving DecidableEq

structure Text where
  enc : Encoding
  pos : ℕ
  len : ℕ
  term : Bool
  deriving DecidableEq

def isASCIIprintable (b : UInt8) : Bool := b ≥ 0x20 && b ≤ 0x7F

def isASCIIcontrol (b : UInt8) : Bool := b == 0x0A || b == 0x0D || b == 0x09

def isTerminator (b : UInt8) : Bool := b == 0x00

def isUtf8Start (b : UInt8) : Bool := b &&& 0xC0 == 0xC0

def isUtfFollow (b : UInt8) : Bool := b &&& 0xC0 == 0x80

/-! ### Digesters -/

/-- What a digester keeps between two bytes. `buf` is the string that is open. -/
structure Digester (σ : Type*) where
  pos : ℕ
  control : σ
  strtrace : ℕ
  buf : Bytes
  found : List Text

section Digest

variable {σ : Type*} (enc : Encoding) (strlim : ℕ) (m : Marker σ UInt8)

/-- The list of strings after byte `b` has ended the one that is open. -/
def Digester.add (d : Digester σ) (b : UInt8) : List Text :=
  if d.strtrace ≥ strlim then
    d.found ++ [⟨enc, d.pos - d.buf.length, d.buf.length, isTerminator b⟩]
  else d.found

def Digester.read (d : Digester σ) (b : UInt8) : Digester σ :=
  if m.takes d.control b then
    { d with
      pos := d.pos + 1, control := m.next d.control b
      strtrace := d.strtrace + 1, buf := d.buf ++ [b] }
  else
    { pos := d.pos + 1, control := m.next d.control b
      strtrace := 0, buf := [], found := d.add enc strlim b }

/-- A digester over a whole file. The closed channel yields a zero byte. -/
def digest (contents : Bytes) : List Text :=
  (contents.foldl (Digester.read enc strlim m) ⟨0, m.start, 0, [], []⟩).add enc strlim 0x00

end Digest

def asciiMarker : Marker Unit UInt8 where
  start := ()
  takes _ b := isASCIIprintable b || isASCIIcontrol b
  next _ _ := ()

def asciidigester (strlim : ℕ) (contents : Bytes) : List Text :=
  digest .ascii strlim asciiMarker contents

structure Utf8State where
  utfSequence : Bool
  lastWasStart : Bool
  deriving DecidableEq

/-- The state after a byte that the digester takes. -/
def Utf8State.take (s : Utf8State) (b : UInt8) : Option Utf8State :=
  if isASCIIprintable b || isASCIIcontrol b then some ⟨false, false⟩
  else if isUtf8Start b && !s.utfSequence then some ⟨true, true⟩
  else if isUtfFollow b && s.utfSequence then some ⟨s.utfSequence, false⟩
  else if isUtf8Start b && s.utfSequence && !s.lastWasStart then some ⟨s.utfSequence, true⟩
  else none

def utf8Marker : Marker Utf8State UInt8 where
  start := ⟨false, false⟩
  takes s b := (s.take b).isSome
  next s b := (s.take b).getD ⟨false, false⟩

def utf8digester (strlim : ℕ) (contents : Bytes) : List Text :=
  digest .utf8 strlim utf8Marker contents

/-- The state is the last byte. Behind a zero byte the source asks for the same class twice. The
slack of the source is zero throughout. -/
def unicodeMarker : Marker UInt8 UInt8 where
  start := 0x00
  takes last b :=
    if last == 0x00 then isASCIIcontrol b || isASCIIcontrol b
    else if isASCIIcontrol last || isASCIIprintable last then b == 0x00
    else false
  next _ b := b

def unicodedigester (strlim : ℕ) (contents : Bytes) : List Text :=
  digest .unicode strlim unicodeMarker contents

/-! ### What a digester finds -/

/-- The byte at which a string ends is a zero byte, or the end of the file. -/
def terminated (contents : Bytes) (stop : ℕ) : Bool :=
  isTerminator (contents[stop]?.getD 0x00)

/-- The string that a run of the bytes is. -/
def textOf (enc : Encoding) (contents : Bytes) (run : ℕ × ℕ) : Text :=
  ⟨enc, run.1, run.2 - run.1, terminated contents run.2⟩

section Digest

variable {σ : Type*} {enc : Encoding} {strlim : ℕ} {m : Marker σ UInt8} {contents : Bytes}

/-- Where a digester is when it has read `n` bytes. -/
structure Digester.At (enc : Encoding) (strlim : ℕ) (m : Marker σ UInt8) (contents : Bytes)
    (n : ℕ) (d : Digester σ) : Prop where
  pos : d.pos = n
  control : d.control = m.stateAt contents n
  strtrace : d.strtrace = trailing (m.Takes contents) n
  buf : d.buf.length = trailing (m.Takes contents) n
  found : d.found = (runsBelow (m.Takes contents) strlim n).map (textOf enc contents)

theorem Digester.At.add {n : ℕ} {d : Digester σ} (h : d.At enc strlim m contents n)
    (hn : ¬m.Takes contents n) :
    d.add enc strlim (contents[n]?.getD 0x00) =
      (runsBelow (m.Takes contents) strlim (n + 1)).map (textOf enc contents) := by
  have hle := trailing_le (m.Takes contents) n
  rw [Digester.add, runsBelow_succ, List.map_append, ← h.found, h.strtrace, h.buf, h.pos]
  by_cases hlim : strlim ≤ trailing (m.Takes contents) n
  · rw [if_pos hlim, if_pos ⟨hn, hlim⟩, List.map_singleton, textOf, terminated]
    simp only [show n - (n - trailing (m.Takes contents) n) = trailing (m.Takes contents) n by
      omega]
  · rw [if_neg hlim, if_neg fun h => hlim h.2, List.map_nil, List.append_nil]

theorem Digester.At.read {n : ℕ} {d : Digester σ} (h : d.At enc strlim m contents n) {b : UInt8}
    (hb : contents[n]? = some b) :
    (d.read enc strlim m b).At enc strlim m contents (n + 1) := by
  have htakes := Marker.takes_iff (m := m) hb
  have hnext := Marker.stateAt_succ (m := m) hb
  rw [← h.control] at htakes hnext
  by_cases hn : m.Takes contents n
  · rw [Digester.read, if_pos (htakes.mp hn)]
    refine ⟨by rw [h.pos], hnext.symm, ?_, ?_, ?_⟩
    · rw [trailing, if_pos hn, h.strtrace]
    · rw [trailing, if_pos hn, List.length_append, h.buf, List.length_singleton]
    · rw [runsBelow_succ, if_neg fun hnot => hnot.1 hn, List.append_nil, h.found]
  · rw [Digester.read, if_neg fun ht => hn (htakes.mpr ht)]
    refine ⟨by rw [h.pos], hnext.symm, ?_, ?_, ?_⟩
    · rw [trailing, if_neg hn]
    · rw [trailing, if_neg hn, List.length_nil]
    · have hadd := h.add hn
      rwa [hb, Option.getD_some] at hadd

theorem Digester.at_take {n : ℕ} (hn : n ≤ contents.length) :
    ((contents.take n).foldl (Digester.read enc strlim m) ⟨0, m.start, 0, [], []⟩).At
      enc strlim m contents n := by
  induction n with
  | zero => exact ⟨rfl, rfl, rfl, rfl, rfl⟩
  | succ n ih =>
    have hb := List.getElem?_eq_getElem (l := contents) (i := n) (by omega)
    rw [List.take_add_one, hb, Option.toList_some, List.foldl_append]
    exact (ih (by omega)).read hb

theorem digest_eq :
    digest enc strlim m contents =
      (runsBelow (m.Takes contents) strlim (contents.length + 1)).map (textOf enc contents) := by
  have hat := @Digester.at_take _ enc strlim m contents _ le_rfl
  have hadd := hat.add (Marker.not_takes_of_length_le le_rfl)
  rw [List.take_length, List.getElem?_eq_none le_rfl] at hadd
  exact hadd

/-- A digester finds the maximal runs of the bytes that it takes. -/
theorem mem_digest {t : Text} (hlim : 1 ≤ strlim) :
    t ∈ digest enc strlim m contents ↔
      IsMaximalRun (m.Takes contents) t.pos (t.pos + t.len) ∧ strlim ≤ t.len ∧
        t.enc = enc ∧ t.term = terminated contents (t.pos + t.len) := by
  rw [digest_eq, List.mem_map]
  constructor
  · rintro ⟨⟨a, b⟩, hab, rfl⟩
    obtain ⟨hrun, hlen, -⟩ := (mem_runsBelow hlim).mp hab
    have hstop : a + (b - a) = b := by have := hrun.lt; omega
    rw [textOf]
    simp only [hstop]
    exact ⟨hrun, hlen, trivial, trivial⟩
  · rintro ⟨hrun, hlen, henc, hterm⟩
    have hstop := Marker.stop_le_length hrun
    refine ⟨(t.pos, t.pos + t.len), (mem_runsBelow hlim).mpr ⟨hrun, by omega, by omega⟩, ?_⟩
    rw [textOf, ← henc, ← hterm, Nat.add_sub_cancel_left]

/-- Whatever the minimal length is, the finds are in the file. -/
theorem stop_le_of_mem_digest {t : Text} (h : t ∈ digest enc strlim m contents) :
    t.pos + t.len ≤ contents.length := by
  rw [digest_eq, List.mem_map] at h
  obtain ⟨run, hrun, rfl⟩ := h
  rw [runsBelow, List.mem_map] at hrun
  obtain ⟨e, he, rfl⟩ := hrun
  have hlt := List.mem_range.mp (List.mem_filter.mp he).1
  have hle := trailing_le (m.Takes contents) e
  simp only [textOf]
  omega

end Digest

end Fluffi.CaRRoT
