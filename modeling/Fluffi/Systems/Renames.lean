import Mathlib.Logic.Function.Basic

/-! Files under names, and one file given the name of another, which is then gone. -/

namespace Fluffi.Systems

variable {κ ω : Type*} [DecidableEq κ]

/-- The file `src` gets the name `dst`. -/
def rename (files : κ → Option ω) (src dst : κ) : κ → Option ω :=
  Function.update (Function.update files src none) dst (files src)

@[simp] theorem rename_dst (files : κ → Option ω) (src dst : κ) :
    rename files src dst dst = files src := Function.update_self ..

theorem rename_of_ne {src dst p : κ} (hsrc : p ≠ src) (hdst : p ≠ dst) (files : κ → Option ω) :
    rename files src dst p = files p := by
  rw [rename, Function.update_of_ne hdst, Function.update_of_ne hsrc]

theorem rename_eq_some {files : κ → Option ω} {src dst p : κ} {file : ω}
    (h : rename files src dst p = some file) : ∃ p', files p' = some file := by
  by_cases hdst : p = dst
  · rw [hdst, rename_dst] at h
    exact ⟨src, h⟩
  · by_cases hsrc : p = src
    · rw [rename, Function.update_of_ne hdst, hsrc, Function.update_self] at h
      cases h
    · rw [rename_of_ne hsrc hdst] at h
      exact ⟨p, h⟩

end Fluffi.Systems
