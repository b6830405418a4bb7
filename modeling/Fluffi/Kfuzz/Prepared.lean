import Fluffi.Kfuzz.Answers

/-! The breakpoints that the preparation leads to, from the answers to all of its commands. -/

namespace Fluffi.Kfuzz

open Fluffi.Runner.Gdb Fluffi.Shared Fluffi.Systems
open Fluffi.Runner.Gdb.Dialogue (reply)

variable {inTime : Target → Line → Bool} {t : Target} {letter : Char} {size : ℕ}
  {address : UInt64}

/-! ### The breakpoints -/

section Blocks

variable {otherwise : Line → List Line} {baseMap : BaseMap} {blocks : List FluffiBasicBlock}
  {response : Line}

end Blocks

/-! ### The whole preparation -/

section Preparation

variable {otherwise : Line → List Line} {split : Line → Line × Line} {modules : List Module}
  {blocks : List FluffiBasicBlock}

end Preparation

end Fluffi.Kfuzz
