import Fluffi.Runner.DrcovHeader
import Fluffi.Systems.Records
import Mathlib.Logic.Basic

/-! The table of a drcov file. The code walks over the entries with a pointer into the buffer
and reads the fields that it needs, so what it reads depends on what it has read. -/

namespace Fluffi.Runner.Drcov

open Shared Systems

/-- `bb_entry_t` of `drcovlib`, as it is patched. -/
structure BBEntry where
  start : UInt32
  size : UInt16
  mod_id : UInt16
  hits_since_last_reset : UInt32
  deriving DecidableEq

def BBEntry.encode (entry : BBEntry) : Bytes :=
  bytesOf 4 entry.start.toNat ++ (bytesOf 2 entry.size.toNat ++
    (bytesOf 2 entry.mod_id.toNat ++ bytesOf 4 entry.hits_since_last_reset.toNat))

/-- `n` bytes at a position, which may be before the first one. -/
def bytesAt (input : Bytes) (pos : ℤ) (n : ℕ) : Bytes := (input.drop pos.toNat).take n

/-- The bytes are bytes of the input. -/
def InInput (input : Bytes) (pos : ℤ) (n : ℕ) : Prop := 0 ≤ pos ∧ pos + n ≤ input.length

instance (input : Bytes) (pos : ℤ) (n : ℕ) : Decidable (InInput input pos n) :=
  inferInstanceAs (Decidable (_ ∧ _))

/-- A field that is read through a pointer. -/
def readAt (input : Bytes) (pos : ℤ) (n : ℕ) : Except Stop ℕ :=
  if InInput input pos n then .ok (word (bytesAt input pos n)) else .error .outside

/-- The loop over the blocks. -/
def blockLoop (input : Bytes) (traceModIDToFluffiModID : ModuleMap) :
    ℕ → ℤ → List FluffiBasicBlock → Except Stop (List FluffiBasicBlock)
  | 0, _, covered => .ok covered
  | numbbs + 1, entry, covered => do
    let hits_since_last_reset ← readAt input (entry + 8) 4
    if hits_since_last_reset = 0 then
      blockLoop input traceModIDToFluffiModID numbbs (entry + 12) covered
    else
      let mod_id ← readAt input (entry + 6) 2
      match traceModIDToFluffiModID (UInt32.ofNat mod_id) with
      | none => blockLoop input traceModIDToFluffiModID numbbs (entry + 12) covered
      | some fluffiModID =>
        let start ← readAt input entry 4
        blockLoop input traceModIDToFluffiModID numbbs (entry + 12)
          (covered ++ [⟨fluffiModID.toInt32, UInt64.ofNat start⟩])

/-! ### What the loop reads -/

def entryAt (input : Bytes) (pos : ℤ) : BBEntry :=
  ⟨UInt32.ofNat (word (bytesAt input pos 4)), UInt16.ofNat (word (bytesAt input (pos + 4) 2)),
    UInt16.ofNat (word (bytesAt input (pos + 6) 2)),
    UInt32.ofNat (word (bytesAt input (pos + 8) 4))⟩

def entriesAt (input : Bytes) : ℕ → ℤ → List BBEntry
  | 0, _ => []
  | n + 1, pos => entryAt input pos :: entriesAt input n (pos + 12)

/-- The block of an entry, if it was hit and its module has a FLUFFI id. -/
def coveredBlock (fluffiModID : UInt16 → Option Int32) (entry : BBEntry) :
    Option FluffiBasicBlock :=
  if entry.hits_since_last_reset = 0 then none
  else (fluffiModID entry.mod_id).map (⟨·, entry.start.toUInt64⟩)

/-- All that the loop reads of an entry is in the input. -/
def EntryInInput (input : Bytes) (fluffiModID : UInt16 → Option Int32) (pos : ℤ) : Prop :=
  InInput input (pos + 8) 4 ∧
    ((entryAt input pos).hits_since_last_reset ≠ 0 →
      InInput input (pos + 6) 2 ∧
        (fluffiModID (entryAt input pos).mod_id ≠ none → InInput input pos 4))

/-- All that the loop reads is in the input. Where the pointer starts before the first byte,
the fields that it reads of the first entry are, unless the module has a FLUFFI id. -/
def TableInInput (input : Bytes) (fluffiModID : UInt16 → Option Int32) (numbbs : ℕ)
    (pos : ℤ) : Prop :=
  numbbs = 0 ∨
    -6 ≤ pos ∧ pos + 12 * numbbs ≤ input.length ∧
      (pos < 0 → fluffiModID (entryAt input pos).mod_id = none)

variable {input : Bytes} {traceModID : ModuleMap} {fluffi : UInt16 → Option Int32}
  {covered : List FluffiBasicBlock} {numbbs : ℕ} {pos : ℤ}

theorem bytesAt_lt (n : ℕ) : word (bytesAt input pos n) < 256 ^ n :=
  (word_lt _).trans_le (Nat.pow_le_pow_right (by decide) (List.length_take_le _ _))

theorem ofNat_mod_id :
    UInt32.ofNat (word (bytesAt input (pos + 6) 2)) = (entryAt input pos).mod_id.toUInt32 := by
  have hlt := @bytesAt_lt input (pos + 6) 2
  rw [entryAt, ← UInt32.toNat_inj]
  simp only [UInt32.toNat_ofNat', UInt16.toNat_toUInt32, UInt16.toNat_ofNat']
  omega

theorem hits_eq_zero_iff :
    word (bytesAt input (pos + 8) 4) = 0 ↔ (entryAt input pos).hits_since_last_reset = 0 := by
  have hlt := @bytesAt_lt input (pos + 8) 4
  rw [entryAt, ← UInt32.toNat_inj]
  simp only [UInt32.toNat_ofNat', UInt32.toNat_ofNat]
  omega

theorem ofNat_start :
    UInt64.ofNat (word (bytesAt input pos 4)) = (entryAt input pos).start.toUInt64 := by
  have hlt := @bytesAt_lt input pos 4
  rw [entryAt, ← UInt64.toNat_inj]
  simp only [UInt64.toNat_ofNat', UInt32.toNat_toUInt64, UInt32.toNat_ofNat']
  omega

theorem entryInInput_of_le (h₀ : 0 ≤ pos) (h : pos + 12 ≤ input.length) :
    EntryInInput input fluffi pos := by
  refine ⟨⟨?_, ?_⟩, fun _ => ⟨⟨?_, ?_⟩, fun _ => ⟨h₀, ?_⟩⟩⟩ <;> omega

/-- Before the first byte, the module id has to be in the input and without a FLUFFI id. -/
theorem entryInInput_of_neg (h₀ : -6 ≤ pos) (hend : pos + 12 ≤ input.length)
    (hnone : fluffi (entryAt input pos).mod_id = none) : EntryInInput input fluffi pos := by
  refine ⟨⟨?_, ?_⟩, fun _ => ⟨⟨?_, ?_⟩, fun hne => absurd hnone hne⟩⟩ <;> omega

theorem EntryInInput.of_neg (h : EntryInInput input fluffi pos) (hneg : pos < 0)
    (hfirst : ∀ b ∈ input.take 8, b ≠ 0) :
    -6 ≤ pos ∧ fluffi (entryAt input pos).mod_id = none := by
  obtain ⟨hhits, hrest⟩ := h
  have hbegin := hhits.1
  have hend := hhits.2
  have hne : (entryAt input pos).hits_since_last_reset ≠ 0 := by
    intro hzero
    have hlt : (pos + 8).toNat < input.length := by omega
    have hmem : input[(pos + 8).toNat] ∈ bytesAt input (pos + 8) 4 := by
      rw [bytesAt, List.drop_eq_getElem_cons hlt, List.take_succ_cons]
      exact List.mem_cons_self
    have hmem8 : input[(pos + 8).toNat] ∈ input.take 8 := by
      rw [List.mem_take_iff_getElem]
      exact ⟨(pos + 8).toNat, by omega, rfl⟩
    exact hfirst _ hmem8 ((word_eq_zero_iff _).mp (hits_eq_zero_iff.mpr hzero) _ hmem)
  obtain ⟨hmod, hstart⟩ := hrest hne
  have hmodBegin := hmod.1
  refine ⟨by omega, ?_⟩
  by_contra hsome
  exact absurd (hstart hsome).1 (not_le.mpr hneg)

section Loop

variable (hmap : ∀ id : UInt16, traceModID id.toUInt32 = (fluffi id).map Int32.toUInt32)
include hmap

/-- One turn, of which all is read in the input. -/
theorem blockLoop_succ (h : EntryInInput input fluffi pos) :
    blockLoop input traceModID (numbbs + 1) pos covered =
      blockLoop input traceModID numbbs (pos + 12)
        (covered ++ (coveredBlock fluffi (entryAt input pos)).toList) := by
  obtain ⟨hhits, hrest⟩ := h
  rw [blockLoop, readAt, if_pos hhits, coveredBlock]
  simp only [bind, Except.bind, hits_eq_zero_iff]
  by_cases hzero : (entryAt input pos).hits_since_last_reset = 0
  · rw [if_pos hzero, if_pos hzero, Option.toList_none, List.append_nil]
  · obtain ⟨hmod, hstart⟩ := hrest hzero
    rw [if_neg hzero, if_neg hzero, readAt, if_pos hmod]
    simp only [ofNat_mod_id, hmap]
    cases hid : fluffi (entryAt input pos).mod_id with
    | none => rw [Option.map_none, Option.map_none, Option.toList_none, List.append_nil]
    | some id =>
      have hid' : fluffi (entryAt input pos).mod_id ≠ none := by
        rw [hid]
        exact Option.some_ne_none id
      simp only [Option.map_some, readAt, if_pos (hstart hid'), ofNat_start,
        Int32.toInt32_toUInt32]
      rfl

theorem blockLoop_outside (h : ¬ EntryInInput input fluffi pos) :
    blockLoop input traceModID (numbbs + 1) pos covered = .error .outside := by
  rw [blockLoop]
  by_cases hhits : InInput input (pos + 8) 4
  · rw [readAt, if_pos hhits]
    simp only [bind, Except.bind, hits_eq_zero_iff]
    have hzero : (entryAt input pos).hits_since_last_reset ≠ 0 := fun hzero =>
      h ⟨hhits, fun hne => absurd hzero hne⟩
    rw [if_neg hzero]
    by_cases hmod : InInput input (pos + 6) 2
    · rw [readAt, if_pos hmod]
      simp only [ofNat_mod_id, hmap]
      cases hid : fluffi (entryAt input pos).mod_id with
      | none => exact absurd ⟨hhits, fun _ => ⟨hmod, fun hne => absurd hid hne⟩⟩ h
      | some id =>
        have hstart : ¬ InInput input pos 4 := fun hstart =>
          h ⟨hhits, fun _ => ⟨hmod, fun _ => hstart⟩⟩
        simp only [Option.map_some, readAt, if_neg hstart]
    · rw [readAt, if_neg hmod]
  · rw [readAt, if_neg hhits]
    rfl

/-- A table that is in the input is read as it is. -/
theorem blockLoop_of_le (h₀ : 0 ≤ pos) (h : pos + 12 * numbbs ≤ input.length) :
    blockLoop input traceModID numbbs pos covered =
      .ok (covered ++ (entriesAt input numbbs pos).filterMap (coveredBlock fluffi)) := by
  induction numbbs generalizing pos covered with
  | zero => rw [blockLoop, entriesAt, List.filterMap_nil, List.append_nil]
  | succ n ih =>
    push_cast at h
    rw [blockLoop_succ hmap (entryInInput_of_le h₀ (by omega)), ih (by omega) (by omega),
      entriesAt, List.filterMap_cons, List.append_assoc]
    cases coveredBlock fluffi (entryAt input pos) with
    | none => rfl
    | some block => rfl

/-- A table that ends behind the input is read beyond it. -/
theorem blockLoop_of_lt (hpos : 0 < numbbs) (h : input.length < pos + 12 * numbbs) :
    blockLoop input traceModID numbbs pos covered = .error .outside := by
  induction numbbs generalizing pos covered with
  | zero => cases hpos
  | succ n ih =>
    by_cases hentry : EntryInInput input fluffi pos
    · have hend := hentry.1.2
      push_cast at h hend
      rw [blockLoop_succ hmap hentry]
      exact ih (by omega) (by omega)
    · exact blockLoop_outside hmap hentry

theorem blockLoop_inInput (h : TableInInput input fluffi numbbs pos) :
    blockLoop input traceModID numbbs pos covered =
      .ok (covered ++ (entriesAt input numbbs pos).filterMap (coveredBlock fluffi)) := by
  rcases h with rfl | ⟨hle, hend, hnone⟩
  · rw [blockLoop, entriesAt, List.filterMap_nil, List.append_nil]
  · by_cases h₀ : 0 ≤ pos
    · exact blockLoop_of_le hmap h₀ hend
    · cases numbbs with
      | zero => rw [blockLoop, entriesAt, List.filterMap_nil, List.append_nil]
      | succ n =>
        -- only the first entry begins before the input
        have hnone := hnone (not_le.mp h₀)
        have hblock : coveredBlock fluffi (entryAt input pos) = none := by
          rw [coveredBlock, hnone]
          split <;> rfl
        push_cast at hend
        rw [blockLoop_succ hmap (entryInInput_of_neg hle (by omega) hnone), hblock, entriesAt,
          List.filterMap_cons_none hblock, Option.toList_none, List.append_nil]
        exact blockLoop_of_le hmap (by omega) (by omega)

theorem tableInInput_of_blockLoop (hfirst : ∀ b ∈ input.take 8, b ≠ 0)
    (h : blockLoop input traceModID numbbs pos covered ≠ .error .outside) :
    TableInInput input fluffi numbbs pos := by
  cases numbbs with
  | zero => exact .inl rfl
  | succ n =>
    have hend : pos + 12 * ((n + 1 : ℕ) : ℤ) ≤ input.length := by
      by_contra hlt
      exact h (blockLoop_of_lt hmap n.succ_pos (not_le.mp hlt))
    have hentry : EntryInInput input fluffi pos := by
      by_contra hout
      exact h (blockLoop_outside hmap hout)
    by_cases h₀ : 0 ≤ pos
    · exact .inr ⟨by omega, hend, fun hneg => absurd h₀ (not_le.mpr hneg)⟩
    · obtain ⟨hle, hnone⟩ := hentry.of_neg (not_le.mp h₀) hfirst
      exact .inr ⟨hle, hend, fun _ => hnone⟩

end Loop

/-! ### The entries of a table -/

theorem bytesAt_eq {before field after : Bytes} {n : ℕ}
    (hinput : input = before ++ (field ++ after)) (hpos : pos = before.length)
    (hfield : field.length = n) : bytesAt input pos n = field := by
  subst hinput hpos hfield
  rw [bytesAt, Int.toNat_natCast, List.drop_left, List.take_left]

@[simp] theorem BBEntry.encode_length (entry : BBEntry) : entry.encode.length = 12 := by
  simp [encode]

theorem entryAt_encode (before after : Bytes) (entry : BBEntry) :
    entryAt (before ++ (entry.encode ++ after)) before.length = entry := by
  obtain ⟨start, size, mod_id, hits⟩ := entry
  let s := bytesOf 4 start.toNat
  let z := bytesOf 2 size.toNat
  let m := bytesOf 2 mod_id.toNat
  let h := bytesOf 4 hits.toNat
  let input := before ++ (s ++ (z ++ (m ++ (h ++ after))))
  have hinput : before ++ (BBEntry.encode ⟨start, size, mod_id, hits⟩ ++ after) = input := by
    simp only [BBEntry.encode, List.append_assoc, input, s, z, m, h]
  have hs : bytesAt input before.length 4 = s := bytesAt_eq rfl rfl (bytesOf_length 4 _)
  have hz : bytesAt input (before.length + 4) 2 = z :=
    @bytesAt_eq _ _ (before ++ s) z (m ++ (h ++ after)) _ (by simp only [List.append_assoc, input])
      (by simp [s]) (bytesOf_length 2 _)
  have hm : bytesAt input (before.length + 6) 2 = m :=
    @bytesAt_eq _ _ (before ++ (s ++ z)) m (h ++ after) _ (by simp only [List.append_assoc, input])
      (by simp [s, z]) (bytesOf_length 2 _)
  have hh : bytesAt input (before.length + 8) 4 = h :=
    @bytesAt_eq _ _ (before ++ (s ++ (z ++ m))) h after _ (by simp only [List.append_assoc, input])
      (by simp [s, z, m]) (bytesOf_length 4 _)
  rw [hinput]
  rw [entryAt, hs, hz, hm, hh, word_bytesOf start.toNat_lt, word_bytesOf size.toNat_lt,
    word_bytesOf mod_id.toNat_lt, word_bytesOf hits.toNat_lt]
  simp

theorem entriesAt_encode (before after : Bytes) (entries : List BBEntry) :
    entriesAt (before ++ (entries.flatMap BBEntry.encode ++ after)) entries.length
      before.length = entries := by
  induction entries generalizing before with
  | nil => rfl
  | cons entry entries ih =>
    have hlength : (before.length : ℤ) + 12 = (before ++ entry.encode).length := by simp
    have hrest := ih (before ++ entry.encode)
    rw [List.append_assoc, ← List.append_assoc entry.encode] at hrest
    rw [List.flatMap_cons, List.length_cons, entriesAt, hlength, hrest, List.append_assoc,
      entryAt_encode]

end Fluffi.Runner.Drcov
