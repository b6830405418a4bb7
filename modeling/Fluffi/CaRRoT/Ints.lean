import Fluffi.CaRRoT.Windows
import Fluffi.Systems.Deadlines
import Fluffi.Systems.Records

/-! The integers of a file. Every window that is scanned is decoded in all its encodings, and what
may be a length is added to a list, in any order. -/

namespace Fluffi.CaRRoT

open Fluffi.Systems Fluffi.Shared
open Fluffi.Systems.Deadlines (toSigned toUnsigned)

inductive IntEncoding
  | uint16be
  | int16be
  | uint16le
  | int16le
  | uint32be
  | int32be
  | uint32le
  | int32le
  | uint64be
  | int64be
  | uint64le
  | int64le
  deriving DecidableEq

/-- The `Int` of the source. -/
structure FoundInt where
  enc : IntEncoding
  byteW : ℕ
  pos : ℕ
  valS : ℤ
  valU : ℕ
  deriving DecidableEq

/-! ### Values -/

def plausibleSigned (size : ℕ) (i : ℤ) : Bool :=
  if i = 0 then false
  else if i < -10 then false
  else if i < 0 then true
  else if i = 256 then false
  else if i > size then false
  else true

def plausibleUnsigned (size i : ℕ) : Bool :=
  if i = 0 then false
  else if i = 256 then false
  else if i > size then false
  else true

/-- What is added for one order of the bytes: the unsigned value, and the signed one where it is
another. -/
def readAs (size pos w : ℕ) (unsigned signed : IntEncoding) (udata : ℕ) : List FoundInt :=
  let sdata := toSigned (8 * w) udata
  (if plausibleUnsigned size udata then [⟨unsigned, w, pos, sdata, udata⟩] else []) ++
    if sdata < 0 ∨ (udata : ℤ) ≠ toUnsigned 64 sdata then
      if plausibleSigned size sdata then [⟨signed, w, pos, sdata, udata⟩] else []
    else []

def bigEndian (bytes : Bytes) : ℕ := word bytes.reverse

def littleEndian (bytes : Bytes) : ℕ := word bytes

/-- Reading too few bytes is a panic. -/
def checkInt (size : ℕ) (bf : Bytes) (pos w : ℕ) : Option (List FoundInt) :=
  if bf.length < w then none
  else if w = 2 then
    some (readAs size pos 2 .uint16be .int16be (bigEndian (bf.take 2)) ++
      readAs size pos 2 .uint16le .int16le (littleEndian (bf.take 2)))
  else if w = 4 then
    some (readAs size pos 4 .uint32be .int32be (bigEndian (bf.take 4)) ++
      readAs size pos 4 .uint32le .int32le (littleEndian (bf.take 4)))
  else if w = 8 then
    some (readAs size pos 8 .uint64be .int64be (bigEndian (bf.take 8)) ++
      readAs size pos 8 .uint64le .int64le (littleEndian (bf.take 8)))
  else some []

/-- What all calls add. -/
def checkInts (contents : Bytes) : List (ℕ × ℕ) → Option (List FoundInt)
  | [] => some []
  | (i, w) :: calls => do
    let ints ← checkInt contents.length (contents.drop i) i w
    let rest ← checkInts contents calls
    pure (ints ++ rest)

/-! ### Duplicates -/

structure Dedup where
  belm : List (List ℕ)
  newints : List FoundInt

/-- Keeps an integer, and enters its value for all its bytes. -/
def Dedup.keep (d : Dedup) (j : FoundInt) : Option Dedup :=
  if j.pos + j.byteW ≤ d.belm.length then
    some ⟨d.belm.mapIdx fun i vals => if j.pos ≤ i ∧ i < j.pos + j.byteW then vals ++ [j.valU]
      else vals, d.newints ++ [j]⟩
  else none

def Dedup.keepUnblocked (d : Dedup) (j : FoundInt) : Option Dedup :=
  match d.belm[j.pos]? with
  | none => none
  | some vals => if j.valU ∈ vals then some d else d.keep j

def ofWidth (w : ℕ) (ints : List FoundInt) : List FoundInt := ints.filter fun i => i.byteW = w

def dedup (size : ℕ) (ints : List FoundInt) : Option (List FoundInt) := do
  let d ← (ofWidth 8 ints).foldlM Dedup.keep ⟨List.replicate size [], []⟩
  let d ← (ofWidth 4 ints).foldlM Dedup.keepUnblocked d
  let d ← (ofWidth 2 ints).foldlM Dedup.keepUnblocked d
  pure d.newints

/-- `ints` are the integers of the file, however the calls are scheduled and equal positions are
sorted. -/
def ScansTo (contents : Bytes) (strings : List Text) (fIntDedup : Bool) (ints : List FoundInt) :
    Prop :=
  ∃ calls found added kept, scanCalls contents.length strings = some calls ∧
    checkInts contents calls = some found ∧ added.Perm found ∧
    (if fIntDedup then dedup contents.length added else some added) = some kept ∧
    ints.Perm kept ∧ ints.Pairwise fun i j => i.pos ≤ j.pos

/-! ### The values -/

def IntEncoding.isBigEndian : IntEncoding → Bool
  | .uint16be | .int16be | .uint32be | .int32be | .uint64be | .int64be => true
  | .uint16le | .int16le | .uint32le | .int32le | .uint64le | .int64le => false

def IntEncoding.width : IntEncoding → ℕ
  | .uint16be | .int16be | .uint16le | .int16le => 2
  | .uint32be | .int32be | .uint32le | .int32le => 4
  | .uint64be | .int64be | .uint64le | .int64le => 8

/-- The unsigned value of bytes in an encoding. -/
def IntEncoding.decode (enc : IntEncoding) (bytes : Bytes) : ℕ :=
  if enc.isBigEndian then bigEndian bytes else littleEndian bytes

/-- The integer is what these bytes are at a position. -/
structure FoundInt.ReadFrom (f : FoundInt) (bf : Bytes) (pos w : ℕ) : Prop where
  pos : f.pos = pos
  byteW : f.byteW = w
  width : f.enc.width = w
  valU : f.valU = f.enc.decode (bf.take w)
  pos_valU : 0 < f.valU

section Values

variable {contents bf : Bytes} {size pos w : ℕ} {f : FoundInt}

theorem ne_zero_of_plausibleUnsigned {i : ℕ} (h : plausibleUnsigned size i = true) : i ≠ 0 := by
  rintro rfl
  exact absurd h Bool.false_ne_true

/-- A signed value that is plausible is not zero, and then the unsigned one is not. -/
theorem ne_zero_of_plausibleSigned {i : ℕ}
    (h : plausibleSigned size (toSigned (8 * w) i) = true) : i ≠ 0 := by
  rintro rfl
  have hzero : toSigned (8 * w) ((0 : ℕ) : ℤ) = 0 := Int.zero_bmod
  rw [hzero] at h
  exact absurd h Bool.false_ne_true

theorem readFrom_of_mem {unsigned signed : IntEncoding} {udata : ℕ}
    (h : f ∈ readAs size pos w unsigned signed udata)
    (henc : ∀ enc, enc = unsigned ∨ enc = signed →
      enc.width = w ∧ udata = enc.decode (bf.take w)) : f.ReadFrom bf pos w := by
  rw [readAs, List.mem_append] at h
  rcases h with h | h
  · split at h
    · rename_i hplausible
      rw [List.mem_singleton] at h
      subst h
      exact ⟨rfl, rfl, (henc _ (.inl rfl)).1, (henc _ (.inl rfl)).2,
        Nat.pos_of_ne_zero (ne_zero_of_plausibleUnsigned hplausible)⟩
    · cases h
  · split at h
    · split at h
      · rename_i hplausible
        rw [List.mem_singleton] at h
        subst h
        exact ⟨rfl, rfl, (henc _ (.inr rfl)).1, (henc _ (.inr rfl)).2,
          Nat.pos_of_ne_zero (ne_zero_of_plausibleSigned hplausible)⟩
      · cases h
    · cases h

/-- The four encodings of a width. -/
theorem readFrom_of_append {ube sbe ule sle : IntEncoding}
    (h : f ∈ readAs size pos w ube sbe (bigEndian (bf.take w)) ++
      readAs size pos w ule sle (littleEndian (bf.take w)))
    (hbig : ∀ enc, enc = ube ∨ enc = sbe → enc.width = w ∧ enc.isBigEndian = true)
    (hlittle : ∀ enc, enc = ule ∨ enc = sle → enc.width = w ∧ enc.isBigEndian = false) :
    f.ReadFrom bf pos w := by
  rcases List.mem_append.mp h with h | h
  · refine readFrom_of_mem h fun enc henc => ⟨(hbig enc henc).1, ?_⟩
    rw [IntEncoding.decode, if_pos (hbig enc henc).2]
  · refine readFrom_of_mem h fun enc henc => ⟨(hlittle enc henc).1, ?_⟩
    rw [IntEncoding.decode, if_neg (by rw [(hlittle enc henc).2]; exact Bool.false_ne_true)]

theorem readFrom_of_checkInt {ints : List FoundInt} (h : checkInt size bf pos w = some ints)
    (hf : f ∈ ints) : f.ReadFrom bf pos w := by
  rw [checkInt] at h
  split at h
  · cases h
  · split at h
    · rename_i hw
      subst hw
      cases h
      exact readFrom_of_append hf (by rintro enc (rfl | rfl) <;> exact ⟨rfl, rfl⟩)
        (by rintro enc (rfl | rfl) <;> exact ⟨rfl, rfl⟩)
    · split at h
      · rename_i hw
        subst hw
        cases h
        exact readFrom_of_append hf (by rintro enc (rfl | rfl) <;> exact ⟨rfl, rfl⟩)
          (by rintro enc (rfl | rfl) <;> exact ⟨rfl, rfl⟩)
      · split at h
        · rename_i hw
          subst hw
          cases h
          exact readFrom_of_append hf (by rintro enc (rfl | rfl) <;> exact ⟨rfl, rfl⟩)
            (by rintro enc (rfl | rfl) <;> exact ⟨rfl, rfl⟩)
        · cases h
          cases hf

theorem checkInt_isSome (h : w ≤ bf.length) : ∃ ints, checkInt size bf pos w = some ints := by
  rw [checkInt, if_neg (Nat.not_lt.mpr h)]
  split
  · exact ⟨_, rfl⟩
  · split
    · exact ⟨_, rfl⟩
    · split <;> exact ⟨_, rfl⟩

/-- The calls that are made read inside the file. -/
theorem checkInts_eq {calls : List (ℕ × ℕ)} (h : ∀ x ∈ calls, x.1 + x.2 ≤ contents.length) :
    ∃ ints, checkInts contents calls = some ints ∧
      ∀ f ∈ ints, ∃ x ∈ calls, f.ReadFrom (contents.drop x.1) x.1 x.2 := by
  induction calls with
  | nil => exact ⟨[], rfl, fun f hf => absurd hf List.not_mem_nil⟩
  | cons x calls ih =>
    obtain ⟨rest, hrest, hmem⟩ := ih fun y hy => h y (List.mem_cons_of_mem _ hy)
    have hx := h x (List.mem_cons_self ..)
    obtain ⟨ints, hints⟩ := @checkInt_isSome (contents.drop x.1) contents.length x.1 x.2
      (by rw [List.length_drop]; omega)
    refine ⟨ints ++ rest, by rw [checkInts, hints, hrest]; rfl, fun f hf => ?_⟩
    rcases List.mem_append.mp hf with hf | hf
    · exact ⟨x, List.mem_cons_self .., readFrom_of_checkInt hints hf⟩
    · obtain ⟨y, hy, hread⟩ := hmem f hf
      exact ⟨y, List.mem_cons_of_mem _ hy, hread⟩

end Values

/-! ### The duplicates -/

section Dedup

variable {size : ℕ} {ints : List FoundInt} {d : Dedup} {j : FoundInt}

/-- An integer in a file of this size. -/
def FoundInt.Inside (size : ℕ) (j : FoundInt) : Prop := 0 < j.byteW ∧ j.pos + j.byteW ≤ size

/-- What is kept is from the list, and there is an entry for each byte of the file. -/
structure Dedup.Fits (size : ℕ) (ints : List FoundInt) (d : Dedup) : Prop where
  belm : d.belm.length = size
  newints : ∀ j ∈ d.newints, j ∈ ints

theorem Dedup.Fits.keep (h : d.Fits size ints) (hj : j ∈ ints) (hinside : j.Inside size) :
    ∃ d', d.keep j = some d' ∧ d'.Fits size ints := by
  refine ⟨_, by rw [Dedup.keep, if_pos (by rw [h.belm]; exact hinside.2)], ?_, ?_⟩
  · rw [List.length_mapIdx, h.belm]
  · intro j' hj'
    rcases List.mem_append.mp hj' with hmem | hmem
    · exact h.newints j' hmem
    · rw [List.mem_singleton] at hmem
      exact hmem ▸ hj

theorem Dedup.Fits.keepUnblocked (h : d.Fits size ints) (hj : j ∈ ints)
    (hinside : j.Inside size) : ∃ d', d.keepUnblocked j = some d' ∧ d'.Fits size ints := by
  have hlt : j.pos < d.belm.length := by
    have := hinside.1
    have := hinside.2
    rw [h.belm]
    omega
  rw [Dedup.keepUnblocked, List.getElem?_eq_getElem hlt]
  simp only
  split
  · exact ⟨d, rfl, h⟩
  · exact h.keep hj hinside

theorem Dedup.Fits.foldlM {keep : Dedup → FoundInt → Option Dedup}
    (hkeep : ∀ {d j}, d.Fits size ints → j ∈ ints → j.Inside size →
      ∃ d', keep d j = some d' ∧ d'.Fits size ints)
    (h : d.Fits size ints) {l : List FoundInt} (hl : ∀ j ∈ l, j ∈ ints)
    (hinside : ∀ j ∈ ints, j.Inside size) :
    ∃ d', l.foldlM keep d = some d' ∧ d'.Fits size ints := by
  induction l generalizing d with
  | nil => exact ⟨d, rfl, h⟩
  | cons j l ih =>
    have hj := hl j (List.mem_cons_self ..)
    obtain ⟨d', hd', hfits⟩ := hkeep h hj (hinside j hj)
    obtain ⟨d'', hd'', hfits'⟩ := ih hfits fun j' hj' => hl j' (List.mem_cons_of_mem _ hj')
    exact ⟨d'', by rw [List.foldlM_cons, hd']; exact hd'', hfits'⟩

/-- The entries of the table are in range, and no integer is made up. -/
theorem dedup_eq (hinside : ∀ j ∈ ints, j.Inside size) :
    ∃ kept, dedup size ints = some kept ∧ ∀ j ∈ kept, j ∈ ints := by
  have hwidth : ∀ w, ∀ j ∈ ofWidth w ints, j ∈ ints := fun w j hj => (List.mem_filter.mp hj).1
  have hstart : Dedup.Fits size ints ⟨List.replicate size [], []⟩ :=
    ⟨List.length_replicate, fun j hj => absurd hj List.not_mem_nil⟩
  obtain ⟨d₈, hd₈, hfits₈⟩ := hstart.foldlM Dedup.Fits.keep (hwidth 8) hinside
  obtain ⟨d₄, hd₄, hfits₄⟩ := hfits₈.foldlM Dedup.Fits.keepUnblocked (hwidth 4) hinside
  obtain ⟨d₂, hd₂, hfits₂⟩ := hfits₄.foldlM Dedup.Fits.keepUnblocked (hwidth 2) hinside
  refine ⟨d₂.newints, ?_, hfits₂.newints⟩
  simp only [dedup, Option.bind_eq_bind, hd₈, Option.bind_some, hd₄, hd₂]
  rfl

end Dedup

/-! ### The scan -/

section Scan

variable {contents : Bytes}

/-- No index leaves the file, whatever the order in which the integers are added, and the windows
that are passed to `checkInt`, each once, are those that lie in the file and contain no byte of a
string. -/
def ScansExactly (contents : Bytes) (strings : List Text) : Prop :=
  ∃ calls found, scanCalls contents.length strings = some calls ∧
    checkInts contents calls = some found ∧
    (∀ added, added.Perm found → ∃ kept, dedup contents.length added = some kept) ∧
    calls.Nodup ∧ ∀ i w, (i, w) ∈ calls ↔
      (w = 2 ∨ w = 4 ∨ w = 8) ∧ i + w ≤ contents.length ∧ Free strings i w

theorem inside_of_readFrom {strings : Recognised contents.length} {calls : List (ℕ × ℕ)}
    (hcalls : scanCalls contents.length strings.strings = some calls) {f : FoundInt}
    {x : ℕ × ℕ} (hx : x ∈ calls) (hread : f.ReadFrom (contents.drop x.1) x.1 x.2) :
    f.Inside contents.length := by
  obtain ⟨hw, hcalled⟩ := (mem_calls strings hcalls).mp hx
  have := hcalled.1
  rw [FoundInt.Inside, hread.pos, hread.byteW]
  omega

/-- Where the calls are made at all, the rest of the scan is in bounds. -/
theorem found_of_calls {strings : Recognised contents.length} {calls : List (ℕ × ℕ)}
    (hcalls : scanCalls contents.length strings.strings = some calls) :
    ∃ found, checkInts contents calls = some found ∧
      (∀ f ∈ found, f.Inside contents.length ∧ f.ReadFrom (contents.drop f.pos) f.pos f.byteW ∧
        Free strings.strings f.pos f.byteW) ∧
      ∀ added, added.Perm found → ∃ kept, dedup contents.length added = some kept := by
  obtain ⟨found, hfound, hmem⟩ := @checkInts_eq contents calls fun x hx => by
    have := ((mem_calls strings hcalls).mp hx).2.1
    omega
  have hinside : ∀ f ∈ found, f.Inside contents.length := by
    intro f hf
    obtain ⟨x, hx, hread⟩ := hmem f hf
    exact inside_of_readFrom hcalls hx hread
  refine ⟨found, hfound, fun f hf => ⟨hinside f hf, ?_⟩, fun added hadded => ?_⟩
  · obtain ⟨x, hx, hread⟩ := hmem f hf
    rw [hread.pos, hread.byteW]
    exact ⟨hread, ((mem_calls strings hcalls).mp hx).2.2⟩
  · obtain ⟨kept, hkept, -⟩ := dedup_eq fun j hj => hinside j (hadded.mem_iff.mp hj)
    exact ⟨kept, hkept⟩

/-- The integers of a file lie in it, outside of its strings, and have the values of its bytes. -/
theorem ScansTo.mem {strings : Recognised contents.length} {fIntDedup : Bool}
    {ints : List FoundInt} (h : ScansTo contents strings.strings fIntDedup ints) {f : FoundInt}
    (hf : f ∈ ints) :
    f.Inside contents.length ∧ f.ReadFrom (contents.drop f.pos) f.pos f.byteW ∧
      Free strings.strings f.pos f.byteW := by
  obtain ⟨calls, found, added, kept, hcalls, hfound, hadded, hkept, hperm, -⟩ := h
  obtain ⟨found', hfound', hmem, -⟩ := found_of_calls hcalls
  rw [hfound, Option.some.injEq] at hfound'
  subst hfound'
  have hf' : f ∈ added := by
    have hk := hperm.mem_iff.mp hf
    split at hkept
    · obtain ⟨kept', hkept', hsub⟩ := @dedup_eq contents.length added
        fun j hj => (hmem j (hadded.mem_iff.mp hj)).1
      rw [hkept, Option.some.injEq] at hkept'
      exact hsub f (hkept' ▸ hk)
    · rw [Option.some.injEq] at hkept
      exact hkept ▸ hk
  exact hmem f (hadded.mem_iff.mp hf')

/-- The scan is exact only where the windows that it leaves out, at the end of the file, are in
strings. -/
theorem scansExactly_iff (contents : Bytes) (strings : Recognised contents.length) :
    ScansExactly contents strings.strings ↔
      contents.length = 0 ∨ InString strings.strings (contents.length - 1) ∨
        8 ≤ contents.length ∧ InString strings.strings (contents.length - 2) := by
  constructor
  · rintro ⟨calls, found, hcalls, -, -, -, hmem⟩
    have hlast : ∀ w, w = 2 ∨ w = 4 ∨ w = 8 → w ≤ contents.length →
        ¬Free strings.strings (contents.length - w) w := by
      intro w hw hle hfree
      have hcall := (hmem (contents.length - w) w).mpr ⟨hw, by omega, hfree⟩
      have := ((mem_calls strings hcalls).mp hcall).2.1
      simp only at this
      omega
    have hstay : AllStay contents.length strings.strings := by
      by_contra hnot
      rw [scanCalls_eq_none strings hnot] at hcalls
      cases hcalls
    rcases hstay with hsize | hzero | hstring
    · by_contra hnot
      rw [not_or, not_or, not_and] at hnot
      refine hlast 2 (.inl rfl) (by omega) fun j hj => ?_
      rcases (show j = 0 ∨ j = 1 by omega) with rfl | rfl
      · exact hnot.2.2 hsize
      · rw [show contents.length - 2 + 1 = contents.length - 1 by omega]
        exact hnot.2.1
    · exact .inl hzero
    · exact .inr (.inl hstring)
  · intro h
    have hstay : AllStay contents.length strings.strings := by
      rcases h with h | h | h
      · exact .inr (.inl h)
      · exact .inr (.inr h)
      · exact .inl h.1
    have hcalls := scanCalls_eq strings hstay
    obtain ⟨found, hfound, -, hdedup⟩ := found_of_calls hcalls
    refine ⟨_, found, hcalls, hfound, hdedup, (nodup_candidates _).filter _, fun i w => ?_⟩
    rw [mem_calls strings hcalls]
    refine and_congr_right fun hw => ?_
    constructor
    · exact fun hcalled => ⟨hcalled.1.le, hcalled.2⟩
    · rintro ⟨hle, hfree⟩
      refine ⟨?_, hfree⟩
      by_contra hlt
      have hend : i + w = contents.length := by
        simp only at hlt
        omega
      rcases h with h | h | ⟨-, h⟩
      · omega
      · refine hfree (w - 1) (by omega) ?_
        rwa [show i + (w - 1) = contents.length - 1 by omega]
      · refine hfree (w - 2) (by omega) ?_
        rwa [show i + (w - 2) = contents.length - 2 by omega]

/-- A file of two bytes that are no string. -/
theorem not_scansExactly_pair : ¬ScansExactly [0x00, 0x05] [] := by
  rintro ⟨calls, -, hcalls, -⟩
  have hnone : scanCalls ([0x00, 0x05] : Bytes).length [] = none := by decide
  rw [hnone] at hcalls
  cases hcalls

end Scan

end Fluffi.CaRRoT
