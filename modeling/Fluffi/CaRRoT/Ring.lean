import Mathlib.Data.List.Basic
import Mathlib.Data.List.DropRight
import Mathlib.Algebra.Order.Ring.Nat
import Fluffi.Shared.Files

/-! A ring of bytes with a window over those that were pushed last. The buffer is a hundred
times as large as the window, and the window wraps around at its end. Sizes and positions are
counted in 64 bits. -/

namespace Fluffi.CaRRoT

open Fluffi.Shared

structure Ring where
  windowSize : UInt64
  bufferSize : UInt64
  windowPosition : UInt64
  buffer : Bytes

namespace Ring

/-- A new ring, if there is memory for its buffer. -/
def zeros (windowSize : UInt64) : Ring :=
  ⟨windowSize, windowSize * 100, windowSize * 100 - windowSize,
    List.replicate (windowSize * 100).toNat 0x00⟩

/-- `make` panics for more than `maxAlloc` bytes. -/
def new (maxAlloc : ℕ) (windowSize : UInt64) : Option Ring :=
  if (windowSize * 100).toNat ≤ maxAlloc then some (zeros windowSize) else none

/-- The bytes from `windowPosition` on. Without a wrap they are a slice of the buffer. -/
def window (b : Ring) : Bytes :=
  if b.windowPosition + b.windowSize < b.bufferSize then
    (b.buffer.drop b.windowPosition.toNat).take b.windowSize.toNat
  else
    (List.range b.windowSize.toNat).map fun i =>
      (b.buffer[((b.windowPosition + UInt64.ofNat i) % b.bufferSize).toNat]?).getD 0x00

/-- A slice that ends before it starts, a copy there is no memory for, a remainder by zero. -/
def windowPanics (maxAlloc : ℕ) (b : Ring) : Bool :=
  if b.windowPosition + b.windowSize < b.bufferSize then
    b.windowPosition + b.windowSize < b.windowPosition
  else maxAlloc < b.windowSize.toNat || b.bufferSize == 0 && b.windowSize != 0

def push (b : Ring) (n : UInt8) : Ring :=
  { b with
    buffer := b.buffer.set ((b.windowPosition + b.windowSize) % b.bufferSize).toNat n
    windowPosition := (b.windowPosition + 1) % b.bufferSize }

def pushPanics (b : Ring) : Bool := b.bufferSize == 0

/-- The window shows the bytes `w`, and the buffer is longer than it. No sum of a position and
the size of the window overflows. -/
structure Shows (b : Ring) (w : Bytes) : Prop where
  windowSize : b.windowSize.toNat = w.length
  smaller : b.windowSize.toNat < b.bufferSize.toNat
  small : b.bufferSize.toNat + b.windowSize.toNat < 2 ^ 64
  windowPosition : b.windowPosition.toNat < b.bufferSize.toNat
  buffer : b.buffer.length = b.bufferSize.toNat
  shown : ∀ i < w.length, b.buffer[(b.windowPosition.toNat + i) % b.bufferSize.toNat]? = w[i]?

variable {b : Ring} {w : Bytes} {windowSize : UInt64} {maxAlloc : ℕ}

theorem toNat_mul_hundred (h : windowSize.toNat * 100 < 2 ^ 64) :
    (windowSize * 100).toNat = windowSize.toNat * 100 := by
  rw [UInt64.toNat_mul]
  exact Nat.mod_eq_of_lt h

theorem zeros_shows (hpos : 0 < windowSize.toNat)
    (hsmall : windowSize.toNat * 100 + windowSize.toNat < 2 ^ 64) :
    (zeros windowSize).Shows (List.replicate windowSize.toNat 0x00) := by
  have hsize : (zeros windowSize).bufferSize.toNat = windowSize.toNat * 100 :=
    toNat_mul_hundred (by omega)
  have hposition : (zeros windowSize).windowPosition.toNat =
      windowSize.toNat * 100 - windowSize.toNat := by
    rw [← hsize]
    refine UInt64.toNat_sub_of_le _ _ (UInt64.le_iff_toNat_le.mpr ?_)
    rw [toNat_mul_hundred (by omega)]
    omega
  refine ⟨List.length_replicate.symm, ?_, ?_, ?_, List.length_replicate, fun i hi => ?_⟩
  · rw [hsize]
    change windowSize.toNat < windowSize.toNat * 100
    omega
  · rw [hsize]
    exact hsmall
  · rw [hsize, hposition]
    omega
  · rw [List.length_replicate] at hi
    have hlt := Nat.mod_lt ((zeros windowSize).windowPosition.toNat + i)
      (show (zeros windowSize).bufferSize.toNat > 0 by omega)
    rw [List.getElem?_replicate, if_pos hi]
    change (List.replicate (windowSize * 100).toNat 0x00)[_]? = _
    rw [List.getElem?_replicate]
    exact if_pos hlt

/-- No sum of a position and an offset in the window overflows. -/
theorem Shows.toNat_add (h : b.Shows w) {k : UInt64} (hk : k.toNat ≤ b.windowSize.toNat) :
    (b.windowPosition + k).toNat = b.windowPosition.toNat + k.toNat := by
  have hsmall := h.small
  have hposition := h.windowPosition
  rw [UInt64.toNat_add]
  exact Nat.mod_eq_of_lt (by omega)

theorem Shows.lt_iff (h : b.Shows w) : b.windowPosition + b.windowSize < b.bufferSize ↔
    b.windowPosition.toNat + b.windowSize.toNat < b.bufferSize.toNat := by
  rw [UInt64.lt_iff_toNat_lt, h.toNat_add le_rfl]

/-- No access is out of range, and the window is what it shows. -/
theorem Shows.window_eq (h : b.Shows w) : b.window = w := by
  have hsize := h.windowSize
  have hsmaller := h.smaller
  rw [window]
  split
  case isTrue hlt =>
    rw [h.lt_iff] at hlt
    refine List.ext_getElem? fun i => ?_
    rcases Nat.lt_or_ge i w.length with hi | hi
    · have hshown := h.shown i hi
      rw [Nat.mod_eq_of_lt (by omega)] at hshown
      rw [List.getElem?_take_of_lt (by omega), List.getElem?_drop, hshown]
    · rw [List.getElem?_eq_none hi, List.getElem?_eq_none]
      rw [List.length_take]
      omega
  case isFalse =>
    refine List.ext_getElem? fun i => ?_
    rw [List.getElem?_map]
    rcases Nat.lt_or_ge i w.length with hi | hi
    · have hoffset : (UInt64.ofNat i).toNat = i :=
        UInt64.toNat_ofNat_of_lt'
          (show i < 2 ^ 64 by have := b.windowSize.toNat_lt; omega)
      rw [List.getElem?_range (by omega), Option.map_some, UInt64.toNat_mod,
        h.toNat_add (by omega), hoffset, h.shown i hi, List.getElem?_eq_getElem hi,
        Option.getD_some]
    · rw [List.getElem?_eq_none (by rw [List.length_range]; omega), Option.map_none,
        List.getElem?_eq_none hi]

/-- A cell of the window is not the one that is written next. -/
theorem next_ne {p i k n : ℕ} (hi : i < k) (hk : k < n) : (p + k) % n ≠ (p + i) % n := by
  intro h
  have hmod : p + i ≡ p + k [MOD n] := h.symm
  have hmod' : i ≡ k [MOD n] := Nat.ModEq.add_left_cancel' p hmod
  rw [Nat.ModEq, Nat.mod_eq_of_lt (by omega), Nat.mod_eq_of_lt hk] at hmod'
  omega

/-- A byte that is pushed moves the window on by one. -/
theorem Shows.push (h : b.Shows w) (n : UInt8) (hpos : 0 < w.length) :
    (b.push n).Shows (w.drop 1 ++ [n]) := by
  have hsize := h.windowSize
  have hsmaller := h.smaller
  have hlength : (w.drop 1 ++ [n]).length = w.length := by
    rw [List.length_append, List.length_drop, List.length_singleton]
    omega
  have hone : (1 : UInt64).toNat = 1 := rfl
  have hnext : (b.push n).windowPosition.toNat =
      (b.windowPosition.toNat + 1) % b.bufferSize.toNat := by
    change ((b.windowPosition + 1) % b.bufferSize).toNat = _
    rw [UInt64.toNat_mod, h.toNat_add (by omega), hone]
  refine ⟨hsize.trans hlength.symm, hsmaller, h.small, ?_, ?_, ?_⟩
  · rw [hnext]
    exact Nat.mod_lt _ (by omega)
  · exact List.length_set.trans h.buffer
  · intro i hi
    rw [hlength] at hi
    rw [hnext]
    change (b.buffer.set ((b.windowPosition + b.windowSize) % b.bufferSize).toNat n)[
      ((b.windowPosition.toNat + 1) % b.bufferSize.toNat + i) % b.bufferSize.toNat]? = _
    rw [UInt64.toNat_mod, h.toNat_add le_rfl, Nat.mod_add_mod, Nat.add_assoc, Nat.add_comm 1 i]
    rcases Nat.lt_or_ge (i + 1) w.length with hlt | hge
    · rw [List.getElem?_set_ne (next_ne (by omega) hsmaller), h.shown _ hlt,
        List.getElem?_append_left (by rw [List.length_drop]; omega), List.getElem?_drop,
        Nat.add_comm 1 i]
    · have hlast : i + 1 = b.windowSize.toNat := by omega
      have hbuffer : (b.windowPosition.toNat + b.windowSize.toNat) % b.bufferSize.toNat <
          b.buffer.length := by
        rw [h.buffer]
        exact Nat.mod_lt _ (by omega)
      rw [hlast, List.getElem?_set_self hbuffer,
        List.getElem?_append_right (by rw [List.length_drop]; omega), List.length_drop,
        show i - (w.length - 1) = 0 by omega]
      rfl

/-! ### Any number of bytes -/

/-- A new ring after some bytes have been pushed; `none` where one of the calls panics. -/
def pushed (maxAlloc : ℕ) (windowSize : UInt64) (bytes : Bytes) : Option Ring :=
  (new maxAlloc windowSize).bind fun b =>
    bytes.foldlM (fun b n => if b.pushPanics then none else some (b.push n)) b

/-- What `Window` returns then; `none` where it panics. -/
def windowAfter (maxAlloc : ℕ) (windowSize : UInt64) (bytes : Bytes) : Option Bytes :=
  (pushed maxAlloc windowSize bytes).bind fun b =>
    if b.windowPanics maxAlloc then none else some b.window

theorem Shows.foldlM_push (h : b.Shows w) (hpos : 0 < w.length) (bytes : Bytes) :
    ∃ b', bytes.foldlM (fun b n => if b.pushPanics then none else some (b.push n)) b = some b' ∧
      b'.Shows ((w ++ bytes).drop bytes.length) := by
  induction bytes generalizing b w with
  | nil => exact ⟨b, rfl, by simpa using h⟩
  | cons n bytes ih =>
    have hlength : (w.drop 1 ++ [n]).length = w.length := by
      rw [List.length_append, List.length_drop, List.length_singleton]
      omega
    obtain ⟨b', hb', hshows⟩ := ih (h.push n hpos) (by omega)
    have hpanics : b.pushPanics = false := by
      have hsmaller := h.smaller
      rw [pushPanics, beq_eq_false_iff_ne]
      intro hzero
      rw [hzero] at hsmaller
      exact absurd hsmaller (Nat.not_lt_zero _)
    refine ⟨b', ?_, ?_⟩
    · rw [List.foldlM_cons, hpanics]
      exact hb'
    · obtain ⟨a, w, rfl⟩ := List.exists_cons_of_length_pos hpos
      simpa using hshows

/-- The bytes that the window reads, and the one that is written next, are inside the buffer. -/
theorem Shows.not_panics (h : b.Shows w) (hmax : b.windowSize.toNat ≤ maxAlloc) :
    b.windowPanics maxAlloc = false := by
  have hsmaller := h.smaller
  rw [windowPanics]
  split
  · rw [decide_eq_false_iff_not, UInt64.lt_iff_toNat_lt, h.toNat_add le_rfl]
    omega
  · rw [Bool.or_eq_false_iff, decide_eq_false_iff_not, Bool.and_eq_false_iff]
    refine ⟨by omega, .inl (beq_eq_false_iff_ne.mpr fun hzero => ?_)⟩
    rw [hzero] at hsmaller
    exact absurd hsmaller (Nat.not_lt_zero _)

/-- A window that no slice is long enough for: its size times a hundred has wrapped around. The
position is before the start of the buffer until something is pushed. -/
structure Wrapped (maxAlloc : ℕ) (b : Ring) : Prop where
  windowSize : maxAlloc < b.windowSize.toNat
  bufferSize : b.bufferSize.toNat ≤ maxAlloc
  windowPosition : b.windowPosition + b.windowSize = b.bufferSize ∨
    b.windowPosition < b.bufferSize

theorem Wrapped.push (h : b.Wrapped maxAlloc) (hpanics : b.pushPanics = false) (n : UInt8) :
    (b.push n).Wrapped maxAlloc := by
  have hne : b.bufferSize.toNat ≠ 0 := by
    intro hzero
    rw [pushPanics, beq_eq_false_iff_ne] at hpanics
    exact hpanics (UInt64.toNat_inj.mp hzero)
  refine ⟨h.windowSize, h.bufferSize, .inr (UInt64.lt_iff_toNat_lt.mpr ?_)⟩
  change ((b.windowPosition + 1) % b.bufferSize).toNat < b.bufferSize.toNat
  rw [UInt64.toNat_mod]
  exact Nat.mod_lt _ (Nat.pos_of_ne_zero hne)

theorem Wrapped.foldlM_push (h : b.Wrapped maxAlloc) {b' : Ring} (bytes : Bytes)
    (hb' : bytes.foldlM (fun b n => if b.pushPanics then none else some (b.push n)) b = some b') :
    b'.Wrapped maxAlloc := by
  induction bytes generalizing b with
  | nil =>
    obtain rfl := Option.some.inj hb'
    exact h
  | cons n bytes ih =>
    rw [List.foldlM_cons] at hb'
    cases hpanics : b.pushPanics with
    | true =>
      rw [hpanics] at hb'
      cases hb'
    | false =>
      rw [hpanics] at hb'
      exact ih (h.push hpanics n) hb'

/-- It panics: there is no memory for the copy, or the slice ends before it starts. -/
theorem Wrapped.panics (h : b.Wrapped maxAlloc) : b.windowPanics maxAlloc = true := by
  have hwindow := h.windowSize
  have hbuffer := h.bufferSize
  rw [windowPanics]
  split
  case isTrue hlt =>
    have hposition : b.windowPosition.toNat < b.bufferSize.toNat := by
      rcases h.windowPosition with heq | hposition
      · rw [heq] at hlt
        exact absurd hlt (UInt64.lt_irrefl _)
      · exact UInt64.lt_iff_toNat_lt.mp hposition
    rw [UInt64.lt_iff_toNat_lt, UInt64.toNat_add] at hlt
    rw [decide_eq_true_iff, UInt64.lt_iff_toNat_lt, UInt64.toNat_add]
    have := b.windowPosition.toNat_lt
    have := b.windowSize.toNat_lt
    omega
  case isFalse => rw [decide_eq_true hwindow, Bool.true_or]

/-- After any number of bytes the window is what was pushed last exactly if there is memory for
the buffer. No process has memory for so many bytes that a hundred times their number overflows. -/
theorem window_pushed_iff (hmax : maxAlloc * 100 < 2 ^ 64) (hpos : 0 < windowSize)
    (bytes : Bytes) :
    windowAfter maxAlloc windowSize bytes =
        some ((List.replicate windowSize.toNat 0x00 ++ bytes).rtake windowSize.toNat) ↔
      windowSize.toNat * 100 ≤ maxAlloc := by
  rw [UInt64.lt_iff_toNat_lt] at hpos
  constructor
  · intro h
    by_contra hlarge
    obtain ⟨b, hb, hwindow⟩ := Option.bind_eq_some_iff.mp h
    obtain ⟨b₀, hnew, hpushes⟩ := Option.bind_eq_some_iff.mp hb
    rw [new] at hnew
    split at hnew
    case isTrue hmake =>
      obtain rfl := Option.some.inj hnew
      have hwrap : 2 ^ 64 ≤ windowSize.toNat * 100 := by
        by_contra hlt
        rw [toNat_mul_hundred (by omega)] at hmake
        omega
      have hwrapped : (zeros windowSize).Wrapped maxAlloc := by
        refine ⟨?_, hmake, .inl (UInt64.sub_add_cancel _ _)⟩
        change maxAlloc < windowSize.toNat
        omega
      rw [(hwrapped.foldlM_push bytes hpushes).panics] at hwindow
      cases hwindow
    case isFalse => cases hnew
  · intro hfits
    have hmul : (windowSize * 100).toNat = windowSize.toNat * 100 :=
      toNat_mul_hundred (by omega)
    obtain ⟨b, hb, hshows⟩ := (zeros_shows hpos (by omega)).foldlM_push
      (by rwa [List.length_replicate]) bytes
    have hsize : b.windowSize.toNat = windowSize.toNat := by
      rw [hshows.windowSize]
      simp
    rw [windowAfter, pushed, new, hmul, if_pos hfits, Option.bind_some, hb, Option.bind_some,
      hshows.not_panics (by omega), hshows.window_eq, List.rtake]
    simp

theorem window_pushed_two : windowAfter (2 ^ 48) 2 [7, 8, 9] = some [8, 9] :=
  (window_pushed_iff (by decide) (by decide) [7, 8, 9]).mpr (by decide)

/-- A hundred times this size is 84 in 64 bits. The ring is made, and has no window. -/
theorem window_wrapped : (new (2 ^ 48) 184467440737095517).isSome = true ∧
    windowAfter (2 ^ 48) 184467440737095517 [] = none := by
  decide

end Ring

end Fluffi.CaRRoT
