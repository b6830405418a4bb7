import Fluffi.Fuzzcmp.Cascade

/-! `mystrcmp_` and `mystrncmp_`. The detailed steps subtract plain chars, which are signed,
and the loop subtracts unsigned ones. The right version gets the strings exchanged, so it
returns the negated difference, and a number joined with its negation is negative: the
result is zero for equal strings and negative for all others. -/

namespace Fluffi.Fuzzcmp

/-- `str1[j] - str2[j]` -/
def charDifference (c1 c2 : UInt8) : Int32 := c1.toInt8.toInt32 - c2.toInt8.toInt32

/-- The difference of the two bytes as unsigned chars. -/
def unsignedDifference (c1 c2 : UInt8) : Int32 := c1.toUInt32.toInt32 - c2.toUInt32.toInt32

def strGoesOn (c1 c2 : UInt8) : Bool := switchGoesOn charLabels c1.toInt8 c2.toInt8

/-- The loop of a `mystrcmp` copy and the return behind it. -/
def strcmpLoop : Pointer → Pointer → Option Int32
  | c1 :: str1, c2 :: str2 =>
    if c1 != 0 && c1 == c2 then strcmpLoop str1 str2 else some (unsignedDifference c1 c2)
  | _, _ => none

/-- `mystrcmp<k>left` and `mystrcmp<k>right` -/
def mystrcmpCopy (k : ℕ) (lr : Side) (str1 str2 : Pointer) : Option Call :=
  (detailedSteps (fun _ => false) strGoesOn charDifference strcmpLoop str1 str2
    (List.range maxdetailedSteps)).map fun result => ⟨result, lastUsedMarker k lr⟩

def sl : List (Pointer → Pointer → Option Call) := table (mystrcmpCopy · .left)

def sr : List (Pointer → Pointer → Option Call) := table (mystrcmpCopy · .right)

def mystrcmp_ (addrToRVA : UInt64 → UInt64) (caller : UInt64) (str1 str2 : Pointer) :
    Option Call := do
  let rva := addrToRVA caller
  let leftmatch ← (← sl[(rva % 31).toNat]?) str1 str2
  let rightmatch ← (← sr[(rva % 31).toNat]?) str2 str1
  some (joinMatches leftmatch rightmatch)

/-- The loop of a `mystrncmp` copy and the returns behind it. -/
def strncmpLoop (str1 str2 : Pointer) (n : UInt64) : Option Int32 :=
  if n = 0 then some 0
  else
    match str1, str2 with
    | c1 :: str1, c2 :: str2 =>
      if c1 != 0 && c1 == c2 then strncmpLoop str1 str2 (n - 1)
      else some (unsignedDifference c1 c2)
    | _, _ => none

/-- `mystrncmp<k>left` and `mystrncmp<k>right` -/
def mystrncmpCopy (k : ℕ) (lr : Side) (str1 str2 : Pointer) (n : UInt64) : Option Call :=
  (detailedSteps (fun j => n == UInt64.ofNat j) strGoesOn charDifference
    (fun str1 str2 => strncmpLoop str1 str2 (n - UInt64.ofNat maxdetailedSteps)) str1 str2
    (List.range maxdetailedSteps)).map fun result => ⟨result, lastUsedMarker k lr⟩

def snl : List (Pointer → Pointer → UInt64 → Option Call) := table (mystrncmpCopy · .left)

def snr : List (Pointer → Pointer → UInt64 → Option Call) := table (mystrncmpCopy · .right)

def mystrncmp_ (addrToRVA : UInt64 → UInt64) (caller : UInt64) (str1 str2 : Pointer)
    (n : UInt64) : Option Call := do
  let rva := addrToRVA caller
  let leftmatch ← (← snl[(rva % 31).toNat]?) str1 str2 n
  let rightmatch ← (← snr[(rva % 31).toNat]?) str2 str1 n
  some (joinMatches leftmatch rightmatch)

/-! ### Zero-terminated strings -/

/-- The bytes of a string before its terminator. -/
structure CString where
  bytes : List UInt8
  zero_notMem : 0 ∉ bytes

/-- A pointer to the string, with whatever is readable behind the terminator. -/
def CString.pointer (s : CString) (behind : List UInt8) : Pointer := s.bytes ++ 0 :: behind

/-- The sign of C's `strcmp`. -/
def strcmp (s t : CString) : Ordering := firstDifference (s.bytes ++ [0]) (t.bytes ++ [0])

/-- The sign of C's `strncmp`. -/
def strncmp (s t : CString) (n : UInt64) : Ordering :=
  firstDifference ((s.bytes ++ [0]).take n.toNat) ((t.bytes ++ [0]).take n.toNat)

/-- The terminator is less than every byte of a string, so the terminated strings compare
as the lists do. -/
theorem firstDifference_terminated {s t : List UInt8} (hs : 0 ∉ s) (ht : 0 ∉ t) (n : ℕ) :
    (firstDifference ((s ++ [0]).take n) ((t ++ [0]).take n) = .eq ↔ s.take n = t.take n) ∧
      (firstDifference ((s ++ [0]).take n) ((t ++ [0]).take n) ≠ .gt ↔
        s.take n ≤ t.take n) := by
  induction n generalizing s t with
  | zero => simp [firstDifference]
  | succ n ih =>
    cases s with
    | nil =>
      cases t with
      | nil => simp [firstDifference]
      | cons b t =>
        have hb : (0 : UInt8) ≠ b := fun h => ht (h ▸ List.mem_cons_self)
        have hpos : 0 < b := UInt8.pos_iff_ne_zero.mpr hb.symm
        simp [firstDifference_cons_of_ne hb, Std.compare_eq_lt.mpr hpos]
    | cons a s =>
      have ha : a ≠ 0 := fun h => hs (h ▸ List.mem_cons_self)
      cases t with
      | nil =>
        have hpos : 0 < a := UInt8.pos_iff_ne_zero.mpr ha
        simp [firstDifference_cons_of_ne ha, Std.compare_eq_gt.mpr hpos]
      | cons b t =>
        simp only [List.cons_append, List.take_succ_cons, List.cons_le_cons_iff, List.cons.injEq]
        by_cases hab : a = b
        · subst hab
          have hnext := ih (s := s) (t := t) (fun h => hs (List.mem_cons_of_mem _ h))
            (fun h => ht (List.mem_cons_of_mem _ h))
          simp [hnext.1, hnext.2, UInt8.lt_irrefl]
        · rw [firstDifference_cons_of_ne hab]
          by_cases hlt : a < b
          · simp [Std.compare_eq_lt.mpr hlt, hlt, hab]
          · have hgt : b < a := UInt8.lt_of_le_of_ne (UInt8.not_lt.mp hlt) (Ne.symm hab)
            simp [Std.compare_eq_gt.mpr hgt, hlt, hab]

theorem strncmp_eq_iff (s t : CString) (n : UInt64) :
    strncmp s t n = .eq ↔ s.bytes.take n.toNat = t.bytes.take n.toNat :=
  (firstDifference_terminated s.zero_notMem t.zero_notMem n.toNat).1

theorem strncmp_ne_gt_iff (s t : CString) (n : UInt64) :
    strncmp s t n ≠ .gt ↔ s.bytes.take n.toNat ≤ t.bytes.take n.toNat :=
  (firstDifference_terminated s.zero_notMem t.zero_notMem n.toNat).2

theorem strcmp_eq_take (s t : CString) :
    strcmp s t = firstDifference ((s.bytes ++ [0]).take (s.bytes.length + t.bytes.length + 1))
      ((t.bytes ++ [0]).take (s.bytes.length + t.bytes.length + 1)) := by
  rw [strcmp, List.take_of_length_le (by simp), List.take_of_length_le (by simp)]

theorem strcmp_eq_iff (s t : CString) : strcmp s t = .eq ↔ s.bytes = t.bytes := by
  rw [strcmp_eq_take, (firstDifference_terminated s.zero_notMem t.zero_notMem _).1,
    List.take_of_length_le (by omega), List.take_of_length_le (by omega)]

theorem strcmp_ne_gt_iff (s t : CString) : strcmp s t ≠ .gt ↔ s.bytes ≤ t.bytes := by
  rw [strcmp_eq_take, (firstDifference_terminated s.zero_notMem t.zero_notMem _).2,
    List.take_of_length_le (by omega), List.take_of_length_le (by omega)]

/-! ### One copy -/

theorem toInt8_inj {c1 c2 : UInt8} : c1.toInt8 = c2.toInt8 ↔ c1 = c2 := by
  constructor
  · intro h
    simpa using congrArg Int8.toUInt8 h
  · rintro rfl
    rfl

theorem strGoesOn_iff {c1 c2 : UInt8} : strGoesOn c1 c2 = true ↔ c1 ≠ 0 ∧ c1 = c2 := by
  have hzero : c1.toInt8 = 0 ↔ c1 = 0 := @toInt8_inj c1 0
  rw [strGoesOn, switchGoesOn_charLabels, Bool.and_eq_true, beq_iff_eq, bne_iff_ne,
    toInt8_inj, ne_eq, hzero, eq_comm (a := c2)]

theorem strGoesOn_comm (c1 c2 : UInt8) : strGoesOn c2 c1 = strGoesOn c1 c2 := by
  rw [Bool.eq_iff_iff, strGoesOn_iff, strGoesOn_iff]
  constructor <;> rintro ⟨h, rfl⟩ <;> exact ⟨h, rfl⟩

theorem charDifference_comm (c1 c2 : UInt8) : charDifference c2 c1 = -charDifference c1 c2 :=
  Int32.neg_sub.symm

theorem unsignedDifference_comm (c1 c2 : UInt8) :
    unsignedDifference c2 c1 = -unsignedDifference c1 c2 :=
  Int32.neg_sub.symm

theorem charDifference_eq_zero_iff {c1 c2 : UInt8} : charDifference c1 c2 = 0 ↔ c1 = c2 := by
  rw [charDifference, Int32.sub_eq_iff_eq_add, Int32.zero_add, ← toInt8_inj]
  constructor
  · intro h
    simpa [← Int8.toInt_inj] using congrArg Int32.toInt h
  · rintro h
    rw [h]

theorem unsignedDifference_eq_zero_iff {c1 c2 : UInt8} :
    unsignedDifference c1 c2 = 0 ↔ c1 = c2 := by
  rw [unsignedDifference, Int32.sub_eq_iff_eq_add, Int32.zero_add]
  constructor
  · intro h
    have hunsigned : c1.toUInt32 = c2.toUInt32 := by simpa using congrArg Int32.toUInt32 h
    exact UInt8.toUInt32_inj.mp hunsigned
  · rintro rfl
    rfl

/-- The first readable byte of a string is its terminator or its first byte. -/
theorem terminated_cases {s x a : List UInt8} {c : UInt8} (hs : 0 ∉ s)
    (h : c :: a = s ++ 0 :: x) :
    (s = [] ∧ c = 0) ∨ ∃ s', s = c :: s' ∧ c ≠ 0 ∧ 0 ∉ s' ∧ a = s' ++ 0 :: x := by
  cases s with
  | nil => exact .inl ⟨rfl, by simpa using congrArg List.head? h⟩
  | cons e s =>
    obtain ⟨rfl, rfl⟩ : c = e ∧ a = s ++ 0 :: x := by simpa using h
    rw [List.mem_cons, not_or] at hs
    exact .inr ⟨s, rfl, Ne.symm hs.1, hs.2, rfl⟩

/-- A copy gives zero or not as its blocks and its loop see the strings to be the `same`.
`live` is what is known of a block that is reached. -/
theorem detailedSteps_strings (done : ℕ → Bool) (loop : Pointer → Pointer → Option Int32)
    (live : ℕ → Prop) (same : ℕ → List UInt8 → List UInt8 → Prop) (hlive : live 0)
    (hnext : ∀ {j}, live j → done j = false → live (j + 1))
    (hdone : ∀ {j s t}, live j → done j = true → same j s t)
    (hcons : ∀ {j c1 c2 s t}, live j → done j = false →
      (same j (c1 :: s) (c2 :: t) ↔ c1 = c2 ∧ same (j + 1) s t))
    (hnil : ∀ {j s t}, live j → done j = false → s = [] ∨ t = [] → (same j s t ↔ s = t))
    (hloop : live maxdetailedSteps → ∀ {s t}, 0 ∉ s → 0 ∉ t → ∀ x y,
      ∃ d, loop (s ++ 0 :: x) (t ++ 0 :: y) = some d ∧ (d = 0 ↔ same maxdetailedSteps s t))
    {s t : List UInt8} (hs : 0 ∉ s) (ht : 0 ∉ t) (x y : List UInt8) :
    ∃ d, detailedSteps done strGoesOn charDifference loop (s ++ 0 :: x) (t ++ 0 :: y)
      (List.range maxdetailedSteps) = some d ∧ (d = 0 ↔ same 0 s t) := by
  refine detailedSteps_induct done strGoesOn charDifference loop
    (P := fun j a b r => live j → ∀ {s t : List UInt8}, 0 ∉ s → 0 ∉ t →
      ∀ x y, a = s ++ 0 :: x → b = t ++ 0 :: y → ∃ d, r = some d ∧ (d = 0 ↔ same j s t))
    ?_ ?_ ?_ ?_ ?_ (s ++ 0 :: x) (t ++ 0 :: y) hlive hs ht x y rfl rfl
  · rintro a b hl s t hs ht x y rfl rfl
    exact hloop hl hs ht x y
  · intro j a b hd hl s t hs ht x y _ _
    exact ⟨0, rfl, by simp [hdone hl hd]⟩
  · rintro j a b hd (rfl | rfl) hl s t hs ht x y ha hb
    · simp at ha
    · simp at hb
  · intro j c1 c2 a b r hd hg hP hl s t hs ht x y ha hb
    obtain ⟨hc, rfl⟩ := strGoesOn_iff.mp hg
    obtain ⟨-, h0⟩ | ⟨s, rfl, -, hs', rfl⟩ := terminated_cases hs ha
    · exact absurd h0 hc
    obtain ⟨-, h0⟩ | ⟨t, rfl, -, ht', rfl⟩ := terminated_cases ht hb
    · exact absurd h0 hc
    simpa [hcons hl hd] using hP (hnext hl hd) hs' ht' x y rfl rfl
  · intro j c1 c2 a b hd hg hl s t hs ht x y ha hb
    rw [← Bool.not_eq_true, strGoesOn_iff] at hg
    refine ⟨_, rfl, charDifference_eq_zero_iff.trans ?_⟩
    obtain ⟨rfl, rfl⟩ | ⟨s, rfl, hc1, -, -⟩ := terminated_cases hs ha
    · rw [hnil hl hd (.inl rfl)]
      obtain ⟨rfl, rfl⟩ | ⟨t, rfl, hc2, -, -⟩ := terminated_cases ht hb
      · simp
      · simp [Ne.symm hc2]
    · obtain ⟨rfl, rfl⟩ | ⟨t, rfl, -, -, -⟩ := terminated_cases ht hb
      · simp [hnil hl hd, hc1]
      · have hne : c1 ≠ c2 := fun h => hg ⟨hc1, h⟩
        simp [hcons hl hd, hne]

/-! ### The two functions -/

theorem strcmpLoop_comm (a b : Pointer) : strcmpLoop b a = (strcmpLoop a b).map (-·) := by
  induction a generalizing b with
  | nil => cases b <;> rfl
  | cons c1 a ih =>
    cases b with
    | nil => rfl
    | cons c2 b =>
      rw [strcmpLoop, strcmpLoop, ih, unsignedDifference_comm c1 c2]
      by_cases hc : c1 = c2
      · subst hc
        by_cases h0 : c1 = 0 <;> simp [h0]
      · simp [hc, Ne.symm hc]

theorem strcmpLoop_strings {s t : List UInt8} (hs : 0 ∉ s) (ht : 0 ∉ t) (x y : List UInt8) :
    ∃ d, strcmpLoop (s ++ 0 :: x) (t ++ 0 :: y) = some d ∧ (d = 0 ↔ s = t) := by
  induction s generalizing t with
  | nil =>
    cases t with
    | nil => exact ⟨0, rfl, by simp⟩
    | cons e t =>
      rw [List.mem_cons, not_or] at ht
      refine ⟨unsignedDifference 0 e, by simp [strcmpLoop], ?_⟩
      rw [unsignedDifference_eq_zero_iff]
      simp [ht.1]
  | cons c s ih =>
    rw [List.mem_cons, not_or] at hs
    cases t with
    | nil =>
      refine ⟨unsignedDifference c 0, by simp [strcmpLoop, Ne.symm hs.1], ?_⟩
      rw [unsignedDifference_eq_zero_iff]
      simp [Ne.symm hs.1]
    | cons e t =>
      rw [List.mem_cons, not_or] at ht
      by_cases hce : c = e
      · obtain ⟨d, hd, hzero⟩ := ih hs.2 ht.2
        exact ⟨d, by simpa [strcmpLoop, hce, Ne.symm ht.1] using hd, by simp [hzero, hce]⟩
      · refine ⟨unsignedDifference c e, by simp [strcmpLoop, hce], ?_⟩
        rw [unsignedDifference_eq_zero_iff]
        simp [hce]

@[simp] theorem strncmpLoop_zero (a b : Pointer) : strncmpLoop a b 0 = some 0 := by
  unfold strncmpLoop
  rfl

theorem strncmpLoop_none {a b : Pointer} (h : a = [] ∨ b = []) {n : UInt64} (hn : n ≠ 0) :
    strncmpLoop a b n = none := by
  unfold strncmpLoop
  rw [if_neg hn]
  rcases h with rfl | rfl
  · rfl
  · cases a <;> rfl

theorem strncmpLoop_cons {n : UInt64} (hn : n ≠ 0) (c1 c2 : UInt8) (a b : Pointer) :
    strncmpLoop (c1 :: a) (c2 :: b) n =
      if c1 != 0 && c1 == c2 then strncmpLoop a b (n - 1)
      else some (unsignedDifference c1 c2) := by
  conv_lhs => unfold strncmpLoop
  rw [if_neg hn]

theorem strncmpLoop_comm (a b : Pointer) (n : UInt64) :
    strncmpLoop b a n = (strncmpLoop a b n).map (-·) := by
  by_cases hn : n = 0
  · simp [hn]
  induction a generalizing b n with
  | nil => rw [strncmpLoop_none (.inl rfl) hn, strncmpLoop_none (.inr rfl) hn, Option.map_none]
  | cons c1 a ih =>
    cases b with
    | nil => rw [strncmpLoop_none (.inl rfl) hn, strncmpLoop_none (.inr rfl) hn, Option.map_none]
    | cons c2 b =>
      rw [strncmpLoop_cons hn, strncmpLoop_cons hn, unsignedDifference_comm c1 c2]
      by_cases hc : c1 = c2
      · subst hc
        by_cases h0 : c1 = 0
        · simp [h0]
        · by_cases hnext : n - 1 = 0
          · simp [h0, hnext]
          · simpa [h0] using ih b (n - 1) hnext
      · simp [hc, Ne.symm hc]

/-- The terminated strings compare by their first `n` bytes. -/
theorem strncmpLoop_strings {s t : List UInt8} (hs : 0 ∉ s) (ht : 0 ∉ t) (x y : List UInt8)
    (n : UInt64) :
    ∃ d, strncmpLoop (s ++ 0 :: x) (t ++ 0 :: y) n = some d ∧
      (d = 0 ↔ s.take n.toNat = t.take n.toNat) := by
  induction s generalizing t n with
  | nil =>
    by_cases hn : n = 0
    · exact ⟨0, by simp [hn], by simp [hn]⟩
    obtain ⟨m, hm, -⟩ := exists_pred hn
    cases t with
    | nil => exact ⟨0, by simp [strncmpLoop_cons hn]; rfl, by simp⟩
    | cons e t =>
      rw [List.mem_cons, not_or] at ht
      refine ⟨unsignedDifference 0 e, by simp [strncmpLoop_cons hn], ?_⟩
      rw [unsignedDifference_eq_zero_iff, hm]
      simp [ht.1]
  | cons c s ih =>
    by_cases hn : n = 0
    · exact ⟨0, by simp [hn], by simp [hn]⟩
    obtain ⟨m, hm, hpred⟩ := exists_pred hn
    rw [List.mem_cons, not_or] at hs
    cases t with
    | nil =>
      refine ⟨unsignedDifference c 0, by simp [strncmpLoop_cons hn, Ne.symm hs.1], ?_⟩
      rw [unsignedDifference_eq_zero_iff, hm]
      simp [Ne.symm hs.1]
    | cons e t =>
      rw [List.mem_cons, not_or] at ht
      by_cases hce : c = e
      · obtain ⟨d, hd, hzero⟩ := ih hs.2 ht.2 (n - 1)
        rw [hpred] at hzero
        refine ⟨d, by simpa [strncmpLoop_cons hn, hce, Ne.symm ht.1] using hd, ?_⟩
        rw [hzero, hm]
        simp [hce]
      · refine ⟨unsignedDifference c e, by simp [strncmpLoop_cons hn, hce], ?_⟩
        rw [unsignedDifference_eq_zero_iff, hm]
        simp [hce]

theorem mystrcmpCopy_strings (k : ℕ) (lr : Side) (s t : CString) (x y : List UInt8) :
    ∃ d, mystrcmpCopy k lr (s.pointer x) (t.pointer y) = some ⟨d, lastUsedMarker k lr⟩ ∧
      (d = 0 ↔ s.bytes = t.bytes) := by
  obtain ⟨d, hd, hzero⟩ := detailedSteps_strings (fun _ => false) strcmpLoop
    (fun _ => True) (fun _ s t => s = t) trivial (fun _ _ => trivial)
    (fun _ h => absurd h (by decide)) (fun _ _ => List.cons.injEq _ _ _ _ ▸ Iff.rfl)
    (fun _ _ _ => Iff.rfl) (fun _ _ _ hs ht x y => strcmpLoop_strings hs ht x y)
    s.zero_notMem t.zero_notMem x y
  refine ⟨d, ?_, hzero⟩
  rw [mystrcmpCopy, CString.pointer, CString.pointer, hd, Option.map_some]

theorem mystrcmpCopy_comm (k : ℕ) (lr lr' : Side) (a b : Pointer) :
    mystrcmpCopy k lr' b a =
      (mystrcmpCopy k lr a b).map fun call => ⟨-call.result, lastUsedMarker k lr'⟩ := by
  rw [mystrcmpCopy, detailedSteps_swap _ strGoesOn_comm charDifference_comm strcmpLoop_comm,
    mystrcmpCopy, Option.map_map, Option.map_map]
  rfl

theorem mystrncmpCopy_strings (k : ℕ) (lr : Side) (s t : CString) (x y : List UInt8)
    (n : UInt64) :
    ∃ d, mystrncmpCopy k lr (s.pointer x) (t.pointer y) n = some ⟨d, lastUsedMarker k lr⟩ ∧
      (d = 0 ↔ s.bytes.take n.toNat = t.bytes.take n.toNat) := by
  obtain ⟨d, hd, hzero⟩ := detailedSteps_strings (fun j => n == UInt64.ofNat j)
    (fun str1 str2 => strncmpLoop str1 str2 (n - UInt64.ofNat maxdetailedSteps))
    (fun j => j ≤ n.toNat)
    (fun j s t => s.take (n.toNat - j) = t.take (n.toNat - j)) (Nat.zero_le _)
    (by
      intro j hj hd
      have hne := (beq_ofNat_eq_false_iff hj).mp hd
      omega)
    (by
      intro j s t hj hd
      have heq := (beq_ofNat_iff hj).mp hd
      simp [heq])
    (by
      intro j c1 c2 s t hj hd
      have hne := (beq_ofNat_eq_false_iff hj).mp hd
      obtain ⟨m, hm⟩ : ∃ m, n.toNat - j = m + 1 := ⟨n.toNat - j - 1, by omega⟩
      have hnext : n.toNat - (j + 1) = m := by omega
      simp [hm, hnext])
    (by
      intro j s t hj hd hnil
      have hne := (beq_ofNat_eq_false_iff hj).mp hd
      obtain ⟨m, hm⟩ : ∃ m, n.toNat - j = m + 1 := ⟨n.toNat - j - 1, by omega⟩
      rw [hm]
      rcases hnil with rfl | rfl
      · cases t <;> simp
      · cases s <;> simp)
    (by
      intro hj s t hs ht x y
      rw [← toNat_sub_maxdetailedSteps hj]
      exact strncmpLoop_strings hs ht x y _)
    s.zero_notMem t.zero_notMem x y
  refine ⟨d, ?_, hzero⟩
  rw [mystrncmpCopy, CString.pointer, CString.pointer, hd, Option.map_some]

theorem mystrncmpCopy_comm (k : ℕ) (lr lr' : Side) (a b : Pointer) (n : UInt64) :
    mystrncmpCopy k lr' b a n =
      (mystrncmpCopy k lr a b n).map fun call => ⟨-call.result, lastUsedMarker k lr'⟩ := by
  rw [mystrncmpCopy, detailedSteps_swap _ strGoesOn_comm charDifference_comm
    (fun a b => strncmpLoop_comm a b _), mystrncmpCopy, Option.map_map, Option.map_map]
  rfl

/-- The two versions run the same copy, the right one with the strings exchanged. -/
theorem mystrcmp_eq (addrToRVA : UInt64 → UInt64) (caller : UInt64) (a b : Pointer) :
    mystrcmp_ addrToRVA caller a b =
      (mystrcmpCopy (addrToRVA caller % 31).toNat .left a b).map fun call =>
        ⟨call.result ||| -call.result, lastUsedMarker (addrToRVA caller % 31).toNat .right⟩ := by
  simp only [mystrcmp_, sl, sr, table_getElem?, Option.bind_eq_bind, Option.bind_some]
  rw [mystrcmpCopy_comm _ .left .right a b]
  cases mystrcmpCopy (addrToRVA caller % 31).toNat .left a b <;> rfl

theorem mystrncmp_eq (addrToRVA : UInt64 → UInt64) (caller : UInt64) (a b : Pointer)
    (n : UInt64) :
    mystrncmp_ addrToRVA caller a b n =
      (mystrncmpCopy (addrToRVA caller % 31).toNat .left a b n).map fun call =>
        ⟨call.result ||| -call.result, lastUsedMarker (addrToRVA caller % 31).toNat .right⟩ := by
  simp only [mystrncmp_, snl, snr, table_getElem?, Option.bind_eq_bind, Option.bind_some]
  rw [mystrncmpCopy_comm _ .left .right a b]
  cases mystrncmpCopy (addrToRVA caller % 31).toNat .left a b n <;> rfl

/-- The strings are equal or the result is negative. -/
theorem mystrcmp_call (addrToRVA : UInt64 → UInt64) (caller : UInt64) (s t : CString)
    (x y : List UInt8) :
    ∃ call, mystrcmp_ addrToRVA caller (s.pointer x) (t.pointer y) = some call ∧
      sign call.result = if s.bytes = t.bytes then .eq else .lt := by
  obtain ⟨d, hd, hzero⟩ :=
    mystrcmpCopy_strings ((addrToRVA caller % 31).toNat) .left s t x y
  rw [mystrcmp_eq, hd, Option.map_some]
  refine ⟨_, rfl, ?_⟩
  rw [sign_or_neg]
  simp only [hzero]

theorem mystrncmp_call (addrToRVA : UInt64 → UInt64) (caller : UInt64) (s t : CString)
    (x y : List UInt8) (n : UInt64) :
    ∃ call, mystrncmp_ addrToRVA caller (s.pointer x) (t.pointer y) n = some call ∧
      sign call.result =
        if s.bytes.take n.toNat = t.bytes.take n.toNat then .eq else .lt := by
  obtain ⟨d, hd, hzero⟩ :=
    mystrncmpCopy_strings ((addrToRVA caller % 31).toNat) .left s t x y n
  rw [mystrncmp_eq, hd, Option.map_some]
  refine ⟨_, rfl, ?_⟩
  rw [sign_or_neg]
  simp only [hzero]

/-- Whatever is readable behind the terminators, the sign is that of C's function exactly
if the first string is not greater than the second one in the order of unsigned bytes. -/
theorem string_comparisons_sign_iff (addrToRVA : UInt64 → UInt64) (caller : UInt64)
    (s t : CString) (x y : List UInt8) (n : UInt64) :
    ((∃ call, mystrcmp_ addrToRVA caller (s.pointer x) (t.pointer y) = some call ∧
        sign call.result = strcmp s t) ↔ s.bytes ≤ t.bytes) ∧
      ((∃ call, mystrncmp_ addrToRVA caller (s.pointer x) (t.pointer y) n = some call ∧
        sign call.result = strncmp s t n) ↔
          s.bytes.take n.toNat ≤ t.bytes.take n.toNat) := by
  constructor
  · obtain ⟨call, hcall, hsign⟩ := mystrcmp_call addrToRVA caller s t x y
    rw [hcall, ← strcmp_ne_gt_iff]
    simp only [Option.some.injEq, exists_eq_left', hsign, ← strcmp_eq_iff]
    cases strcmp s t <;> decide
  · obtain ⟨call, hcall, hsign⟩ := mystrncmp_call addrToRVA caller s t x y n
    rw [hcall, ← strncmp_ne_gt_iff]
    simp only [Option.some.injEq, exists_eq_left', hsign, ← strncmp_eq_iff]
    cases strncmp s t n <;> decide

/-- `"b"` is greater than `"a"`, and both functions call it less. -/
theorem string_comparisons_greater :
    (mystrcmp_ id 0 [98, 0] [97, 0] = some ⟨-1, 31⟩ ∧
        sign (-1) ≠ strcmp ⟨[98], by decide⟩ ⟨[97], by decide⟩) ∧
      mystrncmp_ id 0 [98, 0] [97, 0] 1 = some ⟨-1, 31⟩ ∧
        sign (-1) ≠ strncmp ⟨[98], by decide⟩ ⟨[97], by decide⟩ 1 := by
  decide +kernel

end Fluffi.Fuzzcmp
