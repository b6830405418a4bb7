import Mathlib.Data.UInt

/-! The agents, their service descriptors and testcase IDs. Two testcase IDs are the same testcase
when GUID and local ID agree; the host and port of the creator are carried along
and never compared. `key` is what the comparison sees, so a `std::set` of IDs is
a finite set of keys. -/

namespace Fluffi.Shared

inductive AgentType where
  | TestcaseGenerator
  | TestcaseRunner
  | TestcaseEvaluator
  | GlobalManager
  | LocalManager
  deriving DecidableEq, Repr

structure FluffiServiceDescriptor where
  m_serviceHostAndPort : String
  m_guid : String
  deriving DecidableEq, Repr

structure FluffiTestcaseID where
  m_serviceDescriptor : FluffiServiceDescriptor
  m_localID : UInt64
  deriving DecidableEq, Repr

/-- What `operator==` and `operator<` of `FluffiTestcaseID` compare. -/
structure TestcaseKey where
  guid : String
  localID : UInt64
  deriving DecidableEq, Repr

namespace FluffiTestcaseID

def key (t : FluffiTestcaseID) : TestcaseKey := ⟨t.m_serviceDescriptor.m_guid, t.m_localID⟩

/-- `operator==` -/
instance : BEq FluffiTestcaseID where
  beq lhs rhs := lhs.m_serviceDescriptor.m_guid == rhs.m_serviceDescriptor.m_guid &&
    lhs.m_localID == rhs.m_localID

theorem beq_iff_key (lhs rhs : FluffiTestcaseID) : (lhs == rhs) = true ↔ lhs.key = rhs.key := by
  simp [BEq.beq, key]

theorem any_beq_iff (ids : List FluffiTestcaseID) (t : FluffiTestcaseID) :
    ids.any (· == t) = true ↔ t.key ∈ ids.map key := by
  simp [List.any_eq_true, beq_iff_key]

/-- Testcases without coverage of their own carry this parent. -/
def isSpecial (t : FluffiTestcaseID) : Bool := t.m_serviceDescriptor.m_guid == "special"

end FluffiTestcaseID

/-- `Util::pathSeperator` on Linux. -/
def pathSeperator : String := "/"

/-- `Util::generateTestcasePathAndFilename` -/
def generateTestcasePathAndFilename (testcaseID : FluffiTestcaseID) (testcaseDir : String) :
    String :=
  testcaseDir ++ pathSeperator ++ testcaseID.m_serviceDescriptor.m_guid ++ "-" ++
    toString testcaseID.m_localID

end Fluffi.Shared
