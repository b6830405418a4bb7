import Mathlib.Data.Int.Notation
import Fluffi.Shared.Files

/-! Test results and the evaluations that evaluators send to the local manager. -/

namespace Fluffi.Shared

inductive ExitType
  | CleanExit | Hang | Exception_AccessViolation | Exception_Other
  /-- A number the enumeration does not name. -/
  | unknown
  deriving DecidableEq, Repr

inductive TestEvaluation
  | Keep | Discard
  /-- A number the enumeration does not name. -/
  | unknown
  deriving DecidableEq, Repr

structure FluffiBasicBlock where
  m_moduleID : Int32
  m_rva : UInt64
  deriving DecidableEq

/-- `operator<`, or equal. -/
def FluffiBasicBlock.le (lhs rhs : FluffiBasicBlock) : Bool :=
  if lhs.m_moduleID = rhs.m_moduleID then lhs.m_rva ≤ rhs.m_rva
  else lhs.m_moduleID < rhs.m_moduleID

structure FluffiTestResult where
  m_exitType : ExitType
  m_blocks : List FluffiBasicBlock
  m_crashFootprint : String
  m_hasFullCoverage : Bool
  deriving DecidableEq

structure PutTestEvaluationRequest where
  id : FluffiTestcaseID
  parentid : FluffiTestcaseID
  eval : TestEvaluation
  parentratingdelta : ℤ
  result : FluffiTestResult
  testcasefirstchunk : Bytes
  islastchunk : Bool
  deriving DecidableEq

namespace PutTestEvaluationRequest

/-- A request in which nothing but these fields is set. -/
def unset (id parentid : FluffiTestcaseID) (eval : TestEvaluation) : PutTestEvaluationRequest :=
  ⟨id, parentid, eval, 0, ⟨.CleanExit, [], "", false⟩, [], false⟩

end PutTestEvaluationRequest

end Fluffi.Shared
