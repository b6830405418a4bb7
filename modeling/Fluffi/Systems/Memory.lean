import Mathlib.Data.List.GetD
import Mathlib.Data.UInt

/-! Byte memory with block writes, block reads and little-endian words. The
frame rules say which addresses a write leaves alone; `write_eq_self_iff` says
when a write changes nothing at all. -/

namespace Fluffi.Systems

/-- Every address holds a byte. -/
abbrev Memory := ℕ → UInt8

namespace Memory

/-- Write a block of bytes. -/
def write (m : Memory) (a : ℕ) (bs : List UInt8) : Memory := fun x =>
  if a ≤ x ∧ x < a + bs.length then bs.getD (x - a) 0 else m x

/-- Read a block of bytes. -/
def read (m : Memory) (a n : ℕ) : List UInt8 := (List.range n).map fun i => m (a + i)

variable {m : Memory} {a b n x : ℕ} {bs : List UInt8}

theorem write_outside (h : x < a ∨ a + bs.length ≤ x) : m.write a bs x = m x := by
  simp only [write]
  rw [if_neg (by omega)]

theorem write_inside (h : n < bs.length) : m.write a bs (a + n) = bs[n] := by
  simp only [write]
  rw [if_pos (by omega), Nat.add_sub_cancel_left, List.getD_eq_getElem _ _ h]

@[simp] theorem length_read : (m.read a n).length = n := by simp [read]

theorem read_congr {m' : Memory} (h : ∀ i < n, m (a + i) = m' (a + i)) :
    m.read a n = m'.read a n := by
  simp only [read]
  apply List.map_congr_left
  intro i hi
  exact h i (List.mem_range.mp hi)

theorem read_write_self : (m.write a bs).read a bs.length = bs := by
  apply List.ext_getElem
  · simp
  · intro i hi hj
    simp only [read, List.getElem_map, List.getElem_range]
    exact write_inside hj

theorem read_write_disjoint (h : a + n ≤ b ∨ b + bs.length ≤ a) :
    (m.write b bs).read a n = m.read a n := by
  apply read_congr
  intro i hi
  exact write_outside (by omega)

/-- A write is invisible exactly when the block already held those bytes. -/
theorem write_eq_self_iff : m.write a bs = m ↔ m.read a bs.length = bs := by
  constructor
  · intro h
    have hread : (m.write a bs).read a bs.length = bs := read_write_self
    rwa [h] at hread
  · intro h
    funext x
    by_cases hx : a ≤ x ∧ x < a + bs.length
    · obtain ⟨i, rfl⟩ := Nat.exists_eq_add_of_le hx.1
      have hi : i < bs.length := by omega
      have hlen : i < (m.read a bs.length).length := by rwa [length_read]
      have hget : (m.read a bs.length)[i] = bs[i] := by simp only [h]
      rw [write_inside hi, ← hget]
      simp [read]
    · exact write_outside (by omega)

/-! ### Words -/

/-- The four bytes of a word, least significant first. -/
def wordBytes (w : UInt32) : List UInt8 :=
  [UInt8.ofNat (w.toNat % 256), UInt8.ofNat (w.toNat / 256 % 256),
    UInt8.ofNat (w.toNat / 65536 % 256), UInt8.ofNat (w.toNat / 16777216)]

/-- The word at an address. -/
def loadWord (m : Memory) (a : ℕ) : UInt32 :=
  UInt32.ofNat ((m a).toNat + 256 * (m (a + 1)).toNat + 65536 * (m (a + 2)).toNat +
    16777216 * (m (a + 3)).toNat)

def storeWord (m : Memory) (a : ℕ) (w : UInt32) : Memory := m.write a (wordBytes w)

@[simp] theorem length_wordBytes (w : UInt32) : (wordBytes w).length = 4 := rfl

variable {w v : UInt32}

theorem storeWord_outside (h : x < a ∨ a + 4 ≤ x) : m.storeWord a w x = m x :=
  write_outside h

theorem loadWord_congr {m' : Memory} (h : ∀ i < 4, m (a + i) = m' (a + i)) :
    m.loadWord a = m'.loadWord a := by
  have h0 := h 0 (by omega)
  have h1 := h 1 (by omega)
  have h2 := h 2 (by omega)
  have h3 := h 3 (by omega)
  rw [Nat.add_zero] at h0
  simp only [loadWord, h0, h1, h2, h3]

theorem loadWord_storeWord_self : (m.storeWord a w).loadWord a = w := by
  have hw : w.toNat < 2 ^ 32 := w.toNat_lt
  have h0 : m.storeWord a w (a + 0) = UInt8.ofNat (w.toNat % 256) := write_inside (by simp)
  have h1 : m.storeWord a w (a + 1) = UInt8.ofNat (w.toNat / 256 % 256) :=
    write_inside (by simp)
  have h2 : m.storeWord a w (a + 2) = UInt8.ofNat (w.toNat / 65536 % 256) :=
    write_inside (by simp)
  have h3 : m.storeWord a w (a + 3) = UInt8.ofNat (w.toNat / 16777216) :=
    write_inside (by simp)
  rw [Nat.add_zero] at h0
  apply UInt32.toNat_inj.mp
  simp only [loadWord, h0, h1, h2, h3, UInt8.toNat_ofNat', UInt32.toNat_ofNat']
  omega

theorem loadWord_write_disjoint (h : a + 4 ≤ b ∨ b + bs.length ≤ a) :
    (m.write b bs).loadWord a = m.loadWord a := by
  apply loadWord_congr
  intro i hi
  exact write_outside (by omega)

theorem loadWord_storeWord_disjoint (h : a + 4 ≤ b ∨ b + 4 ≤ a) :
    (m.storeWord b w).loadWord a = m.loadWord a :=
  loadWord_write_disjoint h

/-- Storing a word is invisible exactly when the word was already there. -/
theorem storeWord_eq_self_iff : m.storeWord a w = m ↔ m.loadWord a = w := by
  constructor
  · intro h
    rw [← h]
    exact loadWord_storeWord_self
  · rintro rfl
    apply write_eq_self_iff.mpr
    have hm : ∀ y, (m y).toNat < 256 := fun y => (m y).toNat_lt
    have h0 := hm a
    have h1 := hm (a + 1)
    have h2 := hm (a + 2)
    have h3 := hm (a + 3)
    have hsum : (m.loadWord a).toNat = (m a).toNat + 256 * (m (a + 1)).toNat +
        65536 * (m (a + 2)).toNat + 16777216 * (m (a + 3)).toNat := by
      simp only [loadWord, UInt32.toNat_ofNat']
      omega
    have hb0 : (m.loadWord a).toNat % 256 = (m a).toNat := by omega
    have hb1 : (m.loadWord a).toNat / 256 % 256 = (m (a + 1)).toNat := by omega
    have hb2 : (m.loadWord a).toNat / 65536 % 256 = (m (a + 2)).toNat := by omega
    have hb3 : (m.loadWord a).toNat / 16777216 = (m (a + 3)).toNat := by omega
    simp only [wordBytes, hb0, hb1, hb2, hb3, UInt8.ofNat_toNat]
    rfl

end Memory

/-! ### Addresses that wrap around -/

/-- Every address of a machine of 64 bits holds a byte. -/
abbrev CyclicMemory := UInt64 → UInt8

namespace CyclicMemory

/-- Write a block of bytes. -/
def write (m : CyclicMemory) (a : UInt64) (bs : List UInt8) : CyclicMemory := fun x =>
  bs[(x - a).toNat]?.getD (m x)

/-- Read a block of bytes. -/
def read (m : CyclicMemory) (a : UInt64) (n : ℕ) : List UInt8 :=
  (List.range n).map fun i => m (a + UInt64.ofNat i)

variable {m : CyclicMemory} {a x : UInt64} {bs : List UInt8} {i : ℕ}

theorem toNat_add_sub (h : i < 2 ^ 64) : (a + UInt64.ofNat i - a).toNat = i := by
  rw [UInt64.add_comm, UInt64.add_sub_cancel, UInt64.toNat_ofNat_of_lt' h]

theorem write_outside (h : ∀ i < bs.length, x ≠ a + UInt64.ofNat i) : m.write a bs x = m x := by
  rw [write, List.getElem?_eq_none, Option.getD_none]
  by_contra hin
  refine h (x - a).toNat (by omega) ?_
  rw [UInt64.ofNat_toNat, UInt64.add_comm, UInt64.sub_add_cancel]

theorem read_write_self (h : bs.length ≤ 2 ^ 64) : (m.write a bs).read a bs.length = bs := by
  apply List.ext_getElem
  · rw [read, List.length_map, List.length_range]
  · intro i hi hi'
    simp only [read, List.getElem_map, List.getElem_range, write]
    rw [toNat_add_sub (by omega), List.getElem?_eq_getElem hi', Option.getD_some]

theorem write_write_self : (m.write a bs).write a bs = m.write a bs := by
  funext x
  simp only [write]
  cases bs[(x - a).toNat]? <;> rfl

end CyclicMemory

end Fluffi.Systems
