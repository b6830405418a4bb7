import Fluffi.Generator.Producers

/-! The batch of the honggfuzz mutator. One buffer with its length is mangled in
place again and again, and before each mangling only the bytes of the parent are
written back to the front of the buffer. The length, and the bytes behind the
parent, are those that the previous mangling has left. -/

namespace Fluffi.Generator.HonggfuzzMutator

open Shared

/-! ### The state of a mangling -/

/-- `HONGGFUZZ_MAXSIZE` -/
def HONGGFUZZ_MAXSIZE : ℕ := 1024 * 1024 * 200

/-- The part of `run_t` that a mangling reads and writes. -/
structure RunT where
  dynamicFile : Fin HONGGFUZZ_MAXSIZE → UInt8
  dynamicFileSz : ℕ
  maxFileSz : ℕ

/-- The bytes that `fwrite` takes: the first `dynamicFileSz` of the buffer. -/
def RunT.file (run : RunT) : Bytes :=
  (List.range run.dynamicFileSz).map fun j =>
    if h : j < HONGGFUZZ_MAXSIZE then run.dynamicFile ⟨j, h⟩ else 0

/-- `mangle_mangleContent` with the random choices of one call. It changes the buffer
and the length, which stays within `maxFileSz`. -/
structure Mangling where
  run : RunT → RunT
  maxFileSz_run : ∀ r, (run r).maxFileSz = r.maxFileSz
  size_le : ∀ r, r.dynamicFileSz ≤ r.maxFileSz → (run r).dynamicFileSz ≤ r.maxFileSz

/-! ### The batch -/

/-- An empty parent is mutated as if it had the one byte `42`. -/
def parentBytes (file : Bytes) : Bytes :=
  if file.length = 0 then [42] else file

/-- A tenth more than the parent has, below the size of the buffer. For lengths of that
order the `double` product is truncated to the same number. -/
def maxFileSz (parent : Bytes) : ℕ :=
  if 11 * parent.length < 10 * (HONGGFUZZ_MAXSIZE - 1) then 11 * parent.length / 10
  else HONGGFUZZ_MAXSIZE - 1

/-- `run` before the loop. -/
def start (parent : Bytes) : RunT := ⟨fun _ => 0, parent.length, maxFileSz parent⟩

/-- The copy loop at the begin of each iteration. -/
def restore (parent : Bytes) (run : RunT) : RunT :=
  { run with dynamicFile := fun j => parent.getD j (run.dynamicFile j) }

/-- What an iteration meets: the random choices of its mangling, and if the file of
the child can be opened. -/
structure Iteration where
  mangling : Mangling
  opened : Bool

/-- An iteration with the state that it hands to the mangling. -/
structure Mutation where
  iteration : Iteration
  handed : RunT

/-- The state that the mangling leaves. -/
def Mutation.mangled (m : Mutation) : RunT := m.iteration.mangling.run m.handed

/-- The bytes of the child, where its file could be opened. -/
def Mutation.child (m : Mutation) : Option Bytes :=
  if m.iteration.opened then some m.mangled.file else none

/-- The loop of `batchMutate` from a value of its counter on. The counter is an
`unsigned int`: with the largest `numToGenerate` its test never fails. -/
def mutateFrom (parent : Bytes) (numToGenerate : UInt32) :
    List Iteration → UInt32 → RunT → List Mutation
  | [], _, _ => []
  | it :: its, i, run =>
    if i ≤ numToGenerate then
      if parent.length < HONGGFUZZ_MAXSIZE then
        let m : Mutation := ⟨it, restore parent run⟩
        m :: mutateFrom parent numToGenerate its (i + 1) m.mangled
      else []
    else []

def mutations (file : Bytes) (numToGenerate : UInt32) (its : List Iteration) : List Mutation :=
  mutateFrom (parentBytes file) numToGenerate its 1 (start (parentBytes file))

/-- `HonggfuzzMutator::batchMutate`: the descriptors it returns, with the counter of the
local testcase IDs, or its exception. -/
def batchMutate (m_selfServiceDescriptor : FluffiServiceDescriptor) (m_testcaseDir : String)
    (numToGenerate : UInt32) (parentID : FluffiTestcaseID) (parentFile : Option Bytes)
    (its : List Iteration) (s_numMutations : UInt64) :
    Except String (List NewTestcase × UInt64) :=
  match parentFile with
  | none => .error "Parent does not exist"
  | some file => .ok <| Generator.batchMutate m_selfServiceDescriptor m_testcaseDir parentID
      ((mutations file numToGenerate its).map fun m =>
        if m.iteration.opened then .placed else .failed) s_numMutations

/-- What each iteration would hand to its mangling if there were no other. -/
def fresh (parent : Bytes) : RunT := restore parent (start parent)

/-- The length is the parent's and the buffer behind the parent is as before the loop. -/
def LeavesRest (parent : Bytes) (run : RunT) : Prop :=
  run.dynamicFileSz = parent.length ∧
    ∀ j : Fin HONGGFUZZ_MAXSIZE, parent.length ≤ j → run.dynamicFile j = 0

/-- Any mangling makes of the state the child that it makes of the parent alone. -/
def SameChildren (parent : Bytes) (run : RunT) : Prop :=
  ∀ g : Mangling, (g.run run).file = (g.run (fresh parent)).file

/-! ### What an iteration hands over -/

variable {parent : Bytes} {run : RunT}

theorem parentBytes_length_pos (file : Bytes) : 0 < (parentBytes file).length := by
  unfold parentBytes
  split <;> simp_all [List.length_pos_iff]

theorem length_le_maxFileSz (h : parent.length < HONGGFUZZ_MAXSIZE) :
    parent.length ≤ maxFileSz parent := by
  unfold maxFileSz
  split <;> omega

theorem maxFileSz_lt (parent : Bytes) : maxFileSz parent < HONGGFUZZ_MAXSIZE := by
  unfold maxFileSz HONGGFUZZ_MAXSIZE
  split <;> omega

theorem file_length (run : RunT) : run.file.length = run.dynamicFileSz := by
  simp [RunT.file]

/-- After the copy loop the file is the parent exactly when the length is. -/
theorem restore_file_iff (h : parent.length < HONGGFUZZ_MAXSIZE) :
    (restore parent run).file = parent ↔ run.dynamicFileSz = parent.length := by
  constructor
  · intro hfile
    have hlength := file_length (restore parent run)
    rw [hfile] at hlength
    exact hlength.symm
  · intro hsize
    apply List.ext_getElem
    · rw [file_length, restore, hsize]
    · intro j hj hj'
      have hjb : j < HONGGFUZZ_MAXSIZE := by omega
      simp [RunT.file, restore, hjb, List.getD_eq_getElem?_getD, List.getElem?_eq_getElem hj']

theorem restore_eq_fresh_iff (hmax : run.maxFileSz = maxFileSz parent) :
    restore parent run = fresh parent ↔ LeavesRest parent run := by
  constructor
  · intro h
    refine ⟨congrArg RunT.dynamicFileSz h, fun j hj => ?_⟩
    have hbyte := congrFun (congrArg RunT.dynamicFile h) j
    simpa [restore, fresh, start, List.getD_eq_getElem?_getD, List.getElem?_eq_none hj] using hbyte
  · rintro ⟨hsize, hrest⟩
    unfold fresh restore
    congr 1
    funext j
    by_cases hj : (j : ℕ) < parent.length
    · simp [List.getD_eq_getElem?_getD, List.getElem?_eq_getElem hj]
    · rw [hrest j (by omega)]
      rfl

open Classical in
/-- A mangling that tells one state from all others by the length it leaves. -/
noncomputable def distinguish (state : RunT) : Mangling where
  run r := { r with dynamicFileSz := if r = state then 0 else min 1 r.maxFileSz }
  maxFileSz_run _ := rfl
  size_le r _ := by
    show (if r = state then 0 else min 1 r.maxFileSz) ≤ r.maxFileSz
    split <;> omega

/-- Only the state of an undisturbed parent gives every mangling the same child. -/
theorem sameChildren_iff (hmax : run.maxFileSz = maxFileSz parent) (hpos : 0 < maxFileSz parent) :
    SameChildren parent run ↔ run = fresh parent := by
  constructor
  · intro h
    by_contra hne
    have hlength := congrArg List.length (h (distinguish (fresh parent)))
    rw [file_length, file_length] at hlength
    simp only [distinguish, if_neg hne, if_true, hmax] at hlength
    omega
  · rintro rfl g
    rfl

/-! ### The loop -/

variable {numToGenerate i : UInt32} {its : List Iteration}

theorem mutateFrom_cons (it : Iteration) (hi : i ≤ numToGenerate)
    (hlt : parent.length < HONGGFUZZ_MAXSIZE) :
    mutateFrom parent numToGenerate (it :: its) i run =
      ⟨it, restore parent run⟩ :: mutateFrom parent numToGenerate its (i + 1)
        (it.mangling.run (restore parent run)) := by
  rw [mutateFrom, if_pos hi, if_pos hlt]
  rfl

theorem mutateFrom_ended (h : ¬(i ≤ numToGenerate ∧ parent.length < HONGGFUZZ_MAXSIZE)) :
    mutateFrom parent numToGenerate its i run = [] := by
  cases its with
  | nil => rfl
  | cons it its =>
    rw [mutateFrom]
    split
    · rw [if_neg fun hlt => h ⟨‹_›, hlt⟩]
    · rfl

theorem head_handed {m : Mutation} {ms : List Mutation}
    (h : mutateFrom parent numToGenerate its i run = m :: ms) :
    m.handed = restore parent run := by
  by_cases hgo : i ≤ numToGenerate ∧ parent.length < HONGGFUZZ_MAXSIZE
  · cases its with
    | nil => cases h
    | cons it its =>
      rw [mutateFrom_cons it hgo.1 hgo.2, List.cons.injEq] at h
      rw [← h.1]
  · rw [mutateFrom_ended hgo] at h
    cases h

/-- The iterations follow each other through the copy loop: if `R` says of an iteration
that handed over a `Q` state that the next one does so too, all states handed over
satisfy `Q` as soon as the first does and all iterations but the last satisfy `R`. -/
theorem handed_iff (Q : RunT → Prop) (R : Mutation → Prop) (hQ : Q (restore parent run))
    (hR : ∀ m : Mutation, Q m.handed → (R m ↔ Q (restore parent m.mangled))) :
    (∀ m ∈ mutateFrom parent numToGenerate its i run, Q m.handed) ↔
      ∀ m ∈ (mutateFrom parent numToGenerate its i run).dropLast, R m := by
  induction its generalizing i run with
  | nil => simp [mutateFrom]
  | cons it its ih =>
    by_cases hgo : i ≤ numToGenerate ∧ parent.length < HONGGFUZZ_MAXSIZE
    swap
    · simp [mutateFrom_ended hgo]
    rw [mutateFrom_cons it hgo.1 hgo.2]
    have hm : R ⟨it, restore parent run⟩ ↔
        Q (restore parent (it.mangling.run (restore parent run))) := hR _ hQ
    have ih := @ih (it.mangling.run (restore parent run)) (i + 1)
    cases hrest : mutateFrom parent numToGenerate its (i + 1)
        (it.mangling.run (restore parent run)) with
    | nil => simpa using hQ
    | cons next rest =>
      have hnext : next.handed = restore parent (it.mangling.run (restore parent run)) :=
        head_handed hrest
      rw [hrest] at ih
      rw [List.dropLast_cons_of_ne_nil (by simp)]
      simp only [List.forall_mem_cons (a := (⟨it, restore parent run⟩ : Mutation)), hm]
      constructor
      · intro ⟨_, hall⟩
        have hQ' : Q (restore parent (it.mangling.run (restore parent run))) :=
          hnext ▸ hall next List.mem_cons_self
        exact ⟨hQ', (ih hQ').mp hall⟩
      · intro ⟨hQ', hall⟩
        exact ⟨hQ, (ih hQ').mpr hall⟩

/-- Every iteration hands over, and leaves, the `maxFileSz` and a length within it. -/
theorem bounded_mutations (hmax : run.maxFileSz = maxFileSz parent)
    (hsize : run.dynamicFileSz ≤ run.maxFileSz) :
    ∀ m ∈ mutateFrom parent numToGenerate its i run,
      m.handed.maxFileSz = maxFileSz parent ∧ m.mangled.maxFileSz = maxFileSz parent ∧
        m.mangled.dynamicFileSz ≤ maxFileSz parent := by
  induction its generalizing i run with
  | nil => simp [mutateFrom]
  | cons it its ih =>
    by_cases hgo : i ≤ numToGenerate ∧ parent.length < HONGGFUZZ_MAXSIZE
    swap
    · simp [mutateFrom_ended hgo]
    have hmax' : (it.mangling.run (restore parent run)).maxFileSz = maxFileSz parent :=
      (it.mangling.maxFileSz_run _).trans hmax
    have hsize' : (it.mangling.run (restore parent run)).dynamicFileSz ≤ run.maxFileSz :=
      it.mangling.size_le (restore parent run) hsize
    rw [mutateFrom_cons it hgo.1 hgo.2, List.forall_mem_cons]
    exact ⟨⟨hmax, hmax', hmax ▸ hsize'⟩, ih hmax' (by rw [hmax', ← hmax]; exact hsize')⟩

/-! ### Children of the parent -/

/-- Below the largest `numToGenerate` the counter gets past it. -/
theorem map_iteration_mutateFrom (hlt : parent.length < HONGGFUZZ_MAXSIZE)
    (hn : numToGenerate.toNat < 2 ^ 32 - 1) :
    (mutateFrom parent numToGenerate its i run).map Mutation.iteration =
      its.take (numToGenerate.toNat + 1 - i.toNat) := by
  induction its generalizing i run with
  | nil => simp [mutateFrom]
  | cons it its ih =>
    by_cases hi : i ≤ numToGenerate
    · have hle : i.toNat ≤ numToGenerate.toNat := UInt32.le_iff_toNat_le.mp hi
      have hnext : (i + 1).toNat = i.toNat + 1 := by
        rw [UInt32.toNat_add]
        exact Nat.mod_eq_of_lt (by show i.toNat + 1 < 2 ^ 32; omega)
      rw [mutateFrom_cons it hi hlt, List.map_cons, ih, hnext,
        show numToGenerate.toNat + 1 - i.toNat =
          numToGenerate.toNat + 1 - (i.toNat + 1) + 1 by omega, List.take_succ_cons]
    · rw [mutateFrom_ended fun hgo => hi hgo.1]
      rw [UInt32.le_iff_toNat_le] at hi
      rw [show numToGenerate.toNat + 1 - i.toNat = 0 by omega]
      rfl

/-- The largest `numToGenerate` is never passed. -/
theorem map_iteration_of_largest (hlt : parent.length < HONGGFUZZ_MAXSIZE)
    (hn : numToGenerate.toNat = 2 ^ 32 - 1) :
    (mutateFrom parent numToGenerate its i run).map Mutation.iteration = its := by
  induction its generalizing i run with
  | nil => rfl
  | cons it its ih =>
    have hi : i ≤ numToGenerate := by
      rw [UInt32.le_iff_toNat_le, hn]
      have := i.toNat_lt
      omega
    rw [mutateFrom_cons it hi hlt, List.map_cons, ih]

/-- Which iterations take place: the first `numToGenerate`, or all that ever come. -/
theorem map_iteration_mutations {file : Bytes}
    (hlt : (parentBytes file).length < HONGGFUZZ_MAXSIZE) (numToGenerate : UInt32)
    (its : List Iteration) :
    (mutations file numToGenerate its).map Mutation.iteration =
      if numToGenerate.toNat = 2 ^ 32 - 1 then its else its.take numToGenerate.toNat := by
  split
  · exact map_iteration_of_largest hlt ‹_›
  · have hn : numToGenerate.toNat < 2 ^ 32 - 1 := by
      have := numToGenerate.toNat_lt
      omega
    exact map_iteration_mutateFrom (i := 1) hlt hn

theorem mutations_of_tooLarge {file : Bytes} (h : ¬(parentBytes file).length < HONGGFUZZ_MAXSIZE) :
    mutations file numToGenerate its = [] :=
  mutateFrom_ended fun hgo => h hgo.2

/-- A child is shorter than the buffer that it is written from. -/
theorem child_length_lt (file : Bytes) (numToGenerate : UInt32) (its : List Iteration) :
    ∀ m ∈ mutations file numToGenerate its, ∀ content ∈ m.child,
      content.length < HONGGFUZZ_MAXSIZE := by
  intro m hm content hcontent
  by_cases hlt : (parentBytes file).length < HONGGFUZZ_MAXSIZE
  · have hbound := (bounded_mutations rfl (length_le_maxFileSz hlt) m hm).2.2
    have hmax := maxFileSz_lt (parentBytes file)
    unfold Mutation.child at hcontent
    split at hcontent
    · cases hcontent
      rw [file_length]
      omega
    · cases hcontent
  · rw [mutations_of_tooLarge hlt] at hm
    cases hm

/-- The parent is what every iteration hands over exactly when no iteration but the last
has changed the length. That the other children do not matter needs more: the bytes
behind the parent, which a later mangling can uncover, must be left too. -/
theorem mutations_of_parent_iff (file : Bytes) (numToGenerate : UInt32) (its : List Iteration) :
    ((∀ m ∈ mutations file numToGenerate its, m.handed.file = parentBytes file) ↔
      ∀ m ∈ (mutations file numToGenerate its).dropLast,
        m.mangled.dynamicFileSz = (parentBytes file).length) ∧
    ((∀ m ∈ mutations file numToGenerate its,
        m.handed.file = parentBytes file ∧ SameChildren (parentBytes file) m.handed) ↔
      ∀ m ∈ (mutations file numToGenerate its).dropLast,
        LeavesRest (parentBytes file) (m.iteration.mangling.run (fresh (parentBytes file)))) := by
  by_cases hlt : (parentBytes file).length < HONGGFUZZ_MAXSIZE
  swap
  · simp [mutations_of_tooLarge hlt]
  have hfirst : (restore (parentBytes file) (start (parentBytes file))).file = parentBytes file :=
    (restore_file_iff hlt).mpr rfl
  have hpos : 0 < maxFileSz (parentBytes file) :=
    Nat.lt_of_lt_of_le (parentBytes_length_pos file) (length_le_maxFileSz hlt)
  constructor
  · exact handed_iff (fun r => r.file = parentBytes file) _ hfirst
      fun m _ => (restore_file_iff hlt).symm
  · have hfresh : ∀ m ∈ mutations file numToGenerate its,
        (m.handed.file = parentBytes file ∧ SameChildren (parentBytes file) m.handed ↔
          m.handed = fresh (parentBytes file)) := by
      intro m hm
      have hmax := (bounded_mutations rfl (length_le_maxFileSz hlt) m hm).1
      rw [sameChildren_iff hmax hpos]
      exact ⟨And.right, fun h => ⟨h ▸ hfirst, h⟩⟩
    rw [forall₂_congr hfresh]
    refine handed_iff (· = fresh (parentBytes file)) _ rfl fun m hm => ?_
    have hmax : (m.iteration.mangling.run (fresh (parentBytes file))).maxFileSz =
        maxFileSz (parentBytes file) := m.iteration.mangling.maxFileSz_run _
    rw [← restore_eq_fresh_iff hmax, Mutation.mangled, hm]

/-- `mangle_Shrink` by one byte. -/
def shrinkByOne : Mangling where
  run r := { r with dynamicFileSz := r.dynamicFileSz - 1 }
  maxFileSz_run _ := rfl
  size_le r h := by
    show r.dynamicFileSz - 1 ≤ r.maxFileSz
    omega

/-- The second child of `asdf` is a mutation of `asd`. -/
theorem second_child_shortened :
    let its := [⟨shrinkByOne, true⟩, ⟨shrinkByOne, true⟩]
    (mutations [0x61, 0x73, 0x64, 0x66] 2 its).map (·.handed.file) =
        [[0x61, 0x73, 0x64, 0x66], [0x61, 0x73, 0x64]] ∧
      ¬∀ m ∈ mutations [0x61, 0x73, 0x64, 0x66] 2 its,
        m.handed.file = parentBytes [0x61, 0x73, 0x64, 0x66] := by
  decide

end Fluffi.Generator.HonggfuzzMutator
