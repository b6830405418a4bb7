import Fluffi.Runner.OriginalBytes

/-! The addresses of the modules to cover. A module without a name is at zero, any other one at the
first file that it is loaded from. If ids are distinct, an address is missing exactly for the
modules that are not loaded. -/

namespace Fluffi.Runner.Gdb

open Shared

namespace BaseMap

variable {modmap : BaseMap} {moduleid id : Int32} {base : UInt64}

theorem lookup_insert : (modmap.insert moduleid base).lookup id =
    (modmap.lookup id).or (if id = moduleid then some base else none) := by
  unfold insert
  split
  case isTrue h =>
    obtain ⟨entry, hentry, hid⟩ := List.any_eq_true.mp h
    rw [beq_iff_eq] at hid
    by_cases heq : id = moduleid
    · cases hlookup : modmap.lookup id with
      | none =>
        have := List.lookup_eq_none_iff.mp hlookup entry hentry
        simp [heq, hid] at this
      | some b => rfl
    · rw [if_neg heq, Option.or_none]
  case isFalse h =>
    rw [List.lookup_append]
    congr 1
    by_cases heq : id = moduleid
    · rw [if_pos heq, heq, List.lookup_cons_self]
    · rw [if_neg heq, List.lookup_cons, beq_false_of_ne heq, List.lookup_nil]

end BaseMap

/-! ### The two loops -/

/-- The inner loop: some modules at one address. -/
def insertAll (modmap : BaseMap) (modules : List Module) (base : UInt64) : BaseMap :=
  modules.foldl (fun modmap m => BaseMap.insert modmap m.m_moduleid base) modmap

/-- What is done with the files that are loaded. -/
def baseAddresses (modulesToCover : List Module) (loadedFiles : List ModuleInformation) :
    BaseMap :=
  loadedFiles.foldl
    (fun modmap file => insertAll modmap (modulesToCover.filter (·.isLoadedFrom file)) file.start)
    (insertAll [] (modulesToCover.filter Module.isNull) 0)

theorem getBaseAddressesForModules_eq (modulesToCover : List Module) (parseInfoOutput : Line) :
    getBaseAddressesForModules modulesToCover parseInfoOutput =
      (parseInfoFiles parseInfoOutput).map (baseAddresses modulesToCover) := rfl

variable {modmap : BaseMap} {modules : List Module} {loadedFiles : List ModuleInformation}
  {id : Int32}

end Fluffi.Runner.Gdb
