import Fluffi.Kfuzz.Preparation
import Mathlib.Data.Nat.Digits.Defs

/-! What the runner reads in the answers of the emulator: whether there are registers, the number
of the process, and the bytes at an address. -/

namespace Fluffi.Kfuzz

open Fluffi.Runner.Gdb Fluffi.Shared Fluffi.Systems
open Fluffi.Runner.Gdb.Dialogue (reply)

/-! ### The registers -/

section Registers

variable {t : Target} {r : Register}

/-- What stands behind the name of a register. -/
def behindName (r : Register) : Line :=
  List.replicate (15 - r.name.length) ' ' ++ "0x".toList ++ hexText r.I64.toNat ++
    "   ".toList ++ Nat.toDigits 10 r.I64.toNat ++ ['\r']

theorem registerLine_eq (r : Register) :
    Target.registerLine r ++ ['\r'] = r.name ++ behindName r := by
  simp only [Target.registerLine, behindName, List.append_assoc]

/-- Only digits stand there, besides `x` and blanks. -/
theorem notMem_behindName {c : Char} (hhexDigit : hexDigit c = none) (hdigit : c.isDigit = false)
    (hother : c ≠ '0' ∧ c ≠ 'x' ∧ c ≠ ' ' ∧ c ≠ '\r') (r : Register) : c ∉ behindName r := by
  have hhex : c ∉ hexText r.I64.toNat := fun h => by
    have := mem_hexText h
    rw [hhexDigit] at this
    cases this
  have hdec : c ∉ Nat.toDigits 10 r.I64.toNat := fun h => by
    have := Nat.isDigit_of_mem_toDigits (by decide) (by decide) h
    rw [hdigit] at this
    cases this
  simp [behindName, hhex, hdec, hother]

end Registers

/-! ### The process -/

section Process

variable (t : Target)

end Process

/-! ### The bytes -/

/-- The question for the bytes at an address, with the letter of their number. -/
def question (letter : Char) (address : UInt64) : Line :=
  ['x', '/', '1', 'x', letter, ' '] ++ '0' :: 'x' :: hexText address.toNat

variable {inTime : Target → Line → Bool} {t : Target} {letter : Char} {size : ℕ}
  {address : UInt64}

end Fluffi.Kfuzz
