import Fluffi.Fuzzcmp.Cascade

/-! `mymemcmp_`. The copies test the remaining length before they read, in the detailed
steps and in the loop, and answer `-1` or `1` at the first difference. Both versions get
the same arguments, so joining their results changes nothing. -/

namespace Fluffi.Fuzzcmp

/-- `ptr1[j] < ptr2[j] ? -1 : 1` -/
def memNoMatch (c1 c2 : UInt8) : Int32 := if c1 < c2 then -1 else 1

/-- The loop of a `mymemcmp` copy and the return behind it. -/
def memcmpLoop (ptr1 ptr2 : Pointer) (num : UInt64) : Option Int32 :=
  if num = 0 then some 0
  else
    match ptr1, ptr2 with
    | c1 :: ptr1, c2 :: ptr2 =>
      if c1 != c2 then some (memNoMatch c1 c2) else memcmpLoop ptr1 ptr2 (num - 1)
    | _, _ => none

/-- `mymemcmp<k>left` and `mymemcmp<k>right` -/
def mymemcmpCopy (k : ℕ) (lr : Side) (ptr1 ptr2 : Pointer) (num : UInt64) : Option Call :=
  (detailedSteps (fun j => num == UInt64.ofNat j) (switchGoesOn byteLabels) memNoMatch
    (fun ptr1 ptr2 => memcmpLoop ptr1 ptr2 (num - UInt64.ofNat maxdetailedSteps)) ptr1 ptr2
    (List.range maxdetailedSteps)).map fun result => ⟨result, lastUsedMarker k lr⟩

def ml : List (Pointer → Pointer → UInt64 → Option Call) := table (mymemcmpCopy · .left)

def mr : List (Pointer → Pointer → UInt64 → Option Call) := table (mymemcmpCopy · .right)

def mymemcmp_ (addrToRVA : UInt64 → UInt64) (caller : UInt64) (ptr1 ptr2 : Pointer)
    (num : UInt64) : Option Call := do
  let rva := addrToRVA caller
  let leftmatch ← (← ml[(rva % 31).toNat]?) ptr1 ptr2 num
  let rightmatch ← (← mr[(rva % 31).toNat]?) ptr1 ptr2 num
  some (joinMatches leftmatch rightmatch)

/-- The sign of C's `memcmp`. -/
def memcmp (a b : List UInt8) (num : UInt64) : Ordering :=
  firstDifference (a.take num.toNat) (b.take num.toNat)

/-- The `int` the copies return for a sign. -/
def ofOrdering : Ordering → Int32
  | .lt => -1
  | .eq => 0
  | .gt => 1

theorem sign_ofOrdering (o : Ordering) : sign (ofOrdering o) = o := by
  cases o <;> rfl

theorem memNoMatch_eq {c1 c2 : UInt8} (h : c1 ≠ c2) :
    memNoMatch c1 c2 = ofOrdering (compare c1 c2) := by
  by_cases hlt : c1 < c2
  · rw [memNoMatch, if_pos hlt, Std.compare_eq_lt.mpr hlt, ofOrdering]
  · have hgt : c2 < c1 := UInt8.lt_of_le_of_ne (UInt8.not_lt.mp hlt) (Ne.symm h)
    rw [memNoMatch, if_neg hlt, Std.compare_eq_gt.mpr hgt, ofOrdering]

theorem memcmpLoop_cons {num : UInt64} (hnum : num ≠ 0) (c1 c2 : UInt8) (a b : Pointer) :
    memcmpLoop (c1 :: a) (c2 :: b) num =
      if c1 != c2 then some (memNoMatch c1 c2) else memcmpLoop a b (num - 1) := by
  conv_lhs => unfold memcmpLoop
  rw [if_neg hnum]

/-- The loop reads the next `num` bytes at most, whatever follows them. -/
theorem memcmpLoop_eq {p q : List UInt8} {num : UInt64} (hp : p.length = num.toNat)
    (hq : q.length = num.toNat) (x y : List UInt8) :
    memcmpLoop (p ++ x) (q ++ y) num = some (ofOrdering (firstDifference p q)) := by
  induction p generalizing q num with
  | nil =>
    obtain rfl : num = 0 := UInt64.toNat_inj.mp hp.symm
    unfold memcmpLoop
    rfl
  | cons c1 p ih =>
    have hnum : num ≠ 0 := by
      rintro rfl
      simp at hp
    obtain ⟨m, hm, hpred⟩ := exists_pred hnum
    cases q with
    | nil => simp [hm] at hq
    | cons c2 q =>
      rw [List.cons_append, List.cons_append, memcmpLoop_cons hnum]
      by_cases hc : c1 = c2
      · subst hc
        rw [List.length_cons] at hp hq
        simpa using @ih q (num - 1) (by omega) (by omega)
      · simp [hc, firstDifference_cons_of_ne hc, memNoMatch_eq hc]

theorem exists_cons_of_append {p x a : List UInt8} {c : UInt8} (h : c :: a = p ++ x)
    (hp : 0 < p.length) : ∃ p', p = c :: p' ∧ a = p' ++ x := by
  rcases List.cons_eq_append_iff.mp h with ⟨rfl, -⟩ | ⟨p', rfl, rfl⟩
  · simp at hp
  · exact ⟨p', rfl, rfl⟩

theorem mymemcmpCopy_eq (k : ℕ) (lr : Side) {p q : List UInt8} {num : UInt64}
    (hp : p.length = num.toNat) (hq : q.length = num.toNat) (x y : List UInt8) :
    mymemcmpCopy k lr (p ++ x) (q ++ y) num =
      some ⟨ofOrdering (firstDifference p q), lastUsedMarker k lr⟩ := by
  rw [mymemcmpCopy]
  suffices h : detailedSteps (fun j => num == UInt64.ofNat j) (switchGoesOn byteLabels)
      memNoMatch (fun ptr1 ptr2 => memcmpLoop ptr1 ptr2 (num - UInt64.ofNat maxdetailedSteps))
      (p ++ x) (q ++ y) (List.range maxdetailedSteps) =
        some (ofOrdering (firstDifference p q)) by
    rw [h, Option.map_some]
  -- `p` and `q` are what is left of the first `num` bytes when block `j` is reached.
  refine detailedSteps_induct _ _ _ _ (P := fun j a b r => j ≤ num.toNat → ∀ {p q : List UInt8},
    p.length = num.toNat - j → q.length = num.toNat - j → ∀ x y, a = p ++ x → b = q ++ y →
      r = some (ofOrdering (firstDifference p q))) ?_ ?_ ?_ ?_ ?_ (p ++ x) (q ++ y)
    (Nat.zero_le _) hp hq x y rfl rfl
  · rintro a b hj p q hp hq x y rfl rfl
    have hsub := toNat_sub_maxdetailedSteps hj
    exact memcmpLoop_eq (hp.trans hsub.symm) (hq.trans hsub.symm) x y
  · intro j a b hd hj p q hp hq x y _ _
    have heq := (beq_ofNat_iff hj).mp hd
    obtain rfl : p = [] := List.eq_nil_of_length_eq_zero (by omega)
    rfl
  · intro j a b hd hnil hj p q hp hq x y ha hb
    have hne := (beq_ofNat_eq_false_iff hj).mp hd
    rcases hnil with rfl | rfl
    · have := congrArg List.length ha
      simp at this
      omega
    · have := congrArg List.length hb
      simp at this
      omega
  · intro j c1 c2 a b r hd hg hP hj p q hp hq x y ha hb
    have hne := (beq_ofNat_eq_false_iff hj).mp hd
    obtain ⟨p, rfl, rfl⟩ := exists_cons_of_append ha (by omega)
    obtain ⟨q, rfl, rfl⟩ := exists_cons_of_append hb (by omega)
    rw [List.length_cons] at hp hq
    obtain rfl : c2 = c1 := by simpa [switchGoesOn_byteLabels] using hg
    rw [firstDifference_cons_self]
    exact hP (by omega) (by omega) (by omega) x y rfl rfl
  · intro j c1 c2 a b hd hg hj p q hp hq x y ha hb
    have hne := (beq_ofNat_eq_false_iff hj).mp hd
    obtain ⟨p, rfl, rfl⟩ := exists_cons_of_append ha (by omega)
    obtain ⟨q, rfl, rfl⟩ := exists_cons_of_append hb (by omega)
    have hc : c1 ≠ c2 := by
      rintro rfl
      simp [switchGoesOn_byteLabels] at hg
    rw [firstDifference_cons_of_ne hc, memNoMatch_eq hc]

theorem mymemcmp_eq (addrToRVA : UInt64 → UInt64) (caller : UInt64) {p q : List UInt8}
    {num : UInt64} (hp : p.length = num.toNat) (hq : q.length = num.toNat) (x y : List UInt8) :
    mymemcmp_ addrToRVA caller (p ++ x) (q ++ y) num =
      some ⟨ofOrdering (firstDifference p q),
        lastUsedMarker (addrToRVA caller % 31).toNat .right⟩ := by
  simp only [mymemcmp_, ml, mr, table_getElem?, Option.bind_eq_bind, Option.bind_some,
    mymemcmpCopy_eq _ _ hp hq]
  rw [joinMatches, Int32.or_self]

/-- The call on two arrays gives the sign of C's `memcmp`, and it is the same call, without
a fault, when anything or nothing at all can be read behind the first `num` bytes. -/
theorem mymemcmp_sign (addrToRVA : UInt64 → UInt64) (caller : UInt64) (a b : List UInt8)
    (num : UInt64) (ha : num.toNat ≤ a.length) (hb : num.toNat ≤ b.length) :
    ∃ call, mymemcmp_ addrToRVA caller a b num = some call ∧
      sign call.result = memcmp a b num ∧
      ∀ x y, mymemcmp_ addrToRVA caller (a.take num.toNat ++ x) (b.take num.toNat ++ y) num =
        some call := by
  have hcall := mymemcmp_eq addrToRVA caller (List.length_take_of_le ha)
    (List.length_take_of_le hb)
  refine ⟨_, ?_, ?_, hcall⟩
  · rw [← hcall (a.drop num.toNat) (b.drop num.toNat), List.take_append_drop,
      List.take_append_drop]
  · exact sign_ofOrdering _

theorem mymemcmp_sign_twelve :
    ∃ call, mymemcmp_ (· - 7) 100 (List.replicate 11 (1 : UInt8) ++ [200])
        (List.replicate 12 (1 : UInt8)) 12 = some call ∧
      sign call.result =
        memcmp (List.replicate 11 (1 : UInt8) ++ [200]) (List.replicate 12 (1 : UInt8)) 12 ∧
      ∀ x y, mymemcmp_ (· - 7) 100
        ((List.replicate 11 (1 : UInt8) ++ [200]).take (12 : UInt64).toNat ++ x)
        ((List.replicate 12 (1 : UInt8)).take (12 : UInt64).toNat ++ y) 12 = some call :=
  mymemcmp_sign (· - 7) 100 (List.replicate 11 (1 : UInt8) ++ [200])
    (List.replicate 12 (1 : UInt8)) 12 (by decide) (by decide)

end Fluffi.Fuzzcmp
