import Fluffi.Shared.Identity
import Fluffi.Systems.Texts

/-! The paths of testcase files. The local ID stands behind the last dash, so the path of a
file says which testcase it is. -/

namespace Fluffi.Shared

open Systems

theorem toList_toString (n : UInt64) : (toString n).toList = Nat.toDigits 10 n.toNat := by
  have hnat : toString n = toString n.toNat := rfl
  rw [hnat, Nat.toString_eq_repr, Nat.toList_repr]

theorem dash_notMem_toDigits (n : ℕ) : '-' ∉ Nat.toDigits 10 n := by
  intro h
  have := Nat.isDigit_of_mem_toDigits (by decide) (by decide) h
  exact absurd this (by decide)

theorem toDigits_inj {n m : ℕ} (h : Nat.toDigits 10 n = Nat.toDigits 10 m) : n = m := by
  rw [← Nat.ofDigitChars_ten_toDigits (n := n), h, Nat.ofDigitChars_ten_toDigits]

theorem toList_testcasePath (testcaseID : FluffiTestcaseID) (testcaseDir : String) :
    (generateTestcasePathAndFilename testcaseID testcaseDir).toList =
      testcaseDir.toList ++ '/' :: (testcaseID.m_serviceDescriptor.m_guid.toList ++
        '-' :: Nat.toDigits 10 testcaseID.m_localID.toNat) := by
  simp [generateTestcasePathAndFilename, pathSeperator, toList_toString, String.toList_append]

/-- A path of a directory belongs to one GUID and one local ID. -/
theorem testcasePath_inj {testcaseID testcaseID' : FluffiTestcaseID} {testcaseDir : String}
    (h : generateTestcasePathAndFilename testcaseID testcaseDir =
      generateTestcasePathAndFilename testcaseID' testcaseDir) :
    testcaseID.key = testcaseID'.key := by
  have hlist := congrArg String.toList h
  rw [toList_testcasePath, toList_testcasePath, List.append_cancel_left_eq,
    List.cons.injEq] at hlist
  obtain ⟨hguid, hdigits⟩ := append_cons_inj (dash_notMem_toDigits _) (dash_notMem_toDigits _)
    hlist.2
  have hlocal := UInt64.toNat_inj.mp (toDigits_inj hdigits)
  rw [FluffiTestcaseID.key, FluffiTestcaseID.key, hlocal, String.toList_inj.mp hguid]

end Fluffi.Shared
