import Fluffi.Shared.Splitting
import Fluffi.Systems.Slices
import Mathlib.Algebra.Order.Ring.Int

/-! The length that an HTTP request says of itself. A feeder that sends fewer bytes than it says
lowers the number, in place. Where the number stands is found by searching for line breaks, and
what it is by reading over blanks, and a line break is a blank. -/

namespace Fluffi.TCPFeeder

open Fluffi.Shared Fluffi.Systems.Occurrences Fluffi.Systems.Slices

def contentLength : List Char := "Content-Length: ".toList

def doubleLinebreak : List Char := ['\r', '\n', '\r', '\n']

def singleLinebreak : List Char := ['\r', '\n']

/-! ### Numbers -/

/-- What `atoi` makes of numbers that are no `int`. -/
structure Overflow where
  value : ℤ → ℤ
  isInt : ∀ n, IsInt (value n)

def atoi (overflow : Overflow) (text : List Char) : ℤ :=
  match integerOf text with
  | none => 0
  | some n => if IsInt n then n else overflow.value n

/-- `snprintf` with `%d`. -/
def decimal (n : ℤ) : List Char :=
  if n < 0 then '-' :: Nat.toDigits 10 n.natAbs else Nat.toDigits 10 n.natAbs

/-- The number of bytes behind the header; `none` where an `int` overflows. -/
def realContentLength (length doubleLinebreakPos : ℕ) : Option ℤ :=
  (toInt (intOf length - intOf doubleLinebreakPos)).bind fun n => toInt (n - 4)

/-! ### The function -/

/-- `fixHTTPContentLength`; `none` where its behaviour is undefined. -/
def fixHTTPContentLength (overflow : Overflow) (bytes : List Char) : Option (List Char) :=
  match find bytes contentLength 0 with
  | none => some bytes
  | some contentLengthPos =>
    match find bytes doubleLinebreak contentLengthPos with
    | none => some bytes
    | some doubleLinebreakPos => do
      let realContentLength ← realContentLength bytes.length doubleLinebreakPos
      let specifiedContentLength := atoi overflow (bytes.drop (contentLengthPos + 16))
      if specifiedContentLength ≤ realContentLength then some bytes
      else
        let singleLinebreakPos ← find bytes singleLinebreak contentLengthPos
        -- blanks over the old value, then the new one over the blanks
        let bytes ← put bytes (contentLengthPos + 16)
          (List.replicate (singleLinebreakPos - (contentLengthPos + 16)) ' ')
        put bytes (contentLengthPos + 16) (decimal realContentLength)

/-! ### What should hold -/

/-- Where the first header of the name, the next line break and the end of the headers are. -/
structure Found (bytes : List Char) (p s d : ℕ) : Prop where
  header : find bytes contentLength 0 = some p
  linebreak : find bytes singleLinebreak p = some s
  headersEnd : find bytes doubleLinebreak p = some d

/-- The result is as long as the request, differs from it in the value only, does not say more
than there is, and is not changed again. -/
structure Lowered (overflow : Overflow) (bytes result : List Char) : Prop where
  fixed : fixHTTPContentLength overflow bytes = some result
  length : result.length = bytes.length
  inside : ∀ i, result[i]? ≠ bytes[i]? → ∃ p s, find bytes contentLength 0 = some p ∧
    find bytes singleLinebreak p = some s ∧ p + 16 ≤ i ∧ i < s
  value : ∀ p s d n, Found result p s d → integerOf ((result.take s).drop (p + 16)) = some n →
    n ≤ ((result.length - (d + 4) : ℕ) : ℤ)
  again : fixHTTPContentLength overflow result = some result

/-- The body is shorter than `2 ^ 31` bytes. -/
def ShortBody (bytes : List Char) : Prop :=
  ∀ p s d, Found bytes p s d → bytes.length - (d + 4) < 2 ^ 31

/-- No `int` overflows from the end of the headers on. If more bytes are specified than the body
has, their number has room between the header's name and the line break; and a value there that
is too large is not taken for a smaller one. -/
structure Fits (overflow : Overflow) (bytes : List Char) : Prop where
  int : ∀ p s d, Found bytes p s d → bytes.length - d < 2 ^ 31 ∧
    intOf d + (bytes.length - d : ℕ) < 2 ^ 31
  room : ∀ p s d, Found bytes p s d →
    ((bytes.length - (d + 4) : ℕ) : ℤ) < atoi overflow (bytes.drop (p + 16)) →
    (Nat.toDigits 10 (bytes.length - (d + 4))).length ≤ s - (p + 16)
  seen : ∀ p s d n, Found bytes p s d → integerOf ((bytes.take s).drop (p + 16)) = some n →
    ((bytes.length - (d + 4) : ℕ) : ℤ) < n →
    ((bytes.length - (d + 4) : ℕ) : ℤ) < atoi overflow (bytes.drop (p + 16))

/-! ### The parts of a request -/

/-- A request with a header of the name: what is before it, the value up to the next line break,
and the rest. -/
structure Parts (bytes pre value rest : List Char) : Prop where
  eq : bytes = pre ++ (contentLength ++ (value ++ rest))
  first : firstIndex contentLength bytes = some pre.length
  single : firstIndex singleLinebreak (value ++ rest) = some value.length

variable {bytes pre value value' rest result : List Char} {overflow : Overflow} {p s d k : ℕ}

theorem length_contentLength : contentLength.length = 16 := by decide

theorem Parts.drop (h : Parts bytes pre value rest) :
    bytes.drop pre.length = contentLength ++ (value ++ rest) ∧
      bytes.drop (pre.length + 16) = value ++ rest := by
  have hdrop : bytes.drop pre.length = contentLength ++ (value ++ rest) := by
    rw [h.eq, List.drop_left]
  refine ⟨hdrop, ?_⟩
  rw [← List.drop_drop, hdrop, ← length_contentLength, List.drop_left]

theorem Parts.length (h : Parts bytes pre value rest) :
    bytes.length = pre.length + 16 + value.length + rest.length := by
  rw [h.eq]
  simp only [List.length_append, length_contentLength]
  omega

theorem Parts.find_contentLength (h : Parts bytes pre value rest) :
    find bytes contentLength 0 = some pre.length := by
  rw [find_drop (Nat.zero_le _), List.drop_zero, h.first, Option.map_some, Nat.zero_add]

theorem Parts.find_singleLinebreak (h : Parts bytes pre value rest) :
    find bytes singleLinebreak pre.length = some (pre.length + 16 + value.length) := by
  have hle : pre.length ≤ bytes.length := by
    rw [h.length]
    omega
  rw [find_drop hle, h.drop.1, singleLinebreak, firstIndex_append_of_notMem (by decide),
    ← singleLinebreak, h.single, length_contentLength, Option.map_some, Option.map_some,
    Nat.add_assoc]

/-- The end of the headers is not before the line break. -/
theorem Parts.find_doubleLinebreak (h : Parts bytes pre value rest) :
    find bytes doubleLinebreak pre.length =
      (firstIndex doubleLinebreak rest).map (pre.length + 16 + value.length + ·) := by
  have hle : pre.length ≤ bytes.length := by
    rw [h.length]
    omega
  have hlonger : singleLinebreak <+: doubleLinebreak := by decide
  rw [find_drop hle, h.drop.1, doubleLinebreak, firstIndex_append_of_notMem (by decide),
    ← doubleLinebreak, firstIndex_of_prefix hlonger h.single, List.drop_left,
    length_contentLength, Option.map_map, Option.map_map]
  congr 1
  funext n
  simp only [Function.comp]
  omega

theorem Parts.linebreak (h : Parts bytes pre value rest) : singleLinebreak <+: rest := by
  have hstarts := (firstIndex_eq_some_iff.mp h.single).2.1
  rwa [List.drop_left] at hstarts

/-- Another value without a line break takes the place of the old one. -/
theorem Parts.replace (h : Parts bytes pre value rest) (hvalue : '\r' ∉ value') :
    Parts (pre ++ (contentLength ++ (value' ++ rest))) pre value' rest where
  eq := rfl
  first := by
    have hfirst := h.first
    rw [h.eq, ← List.append_assoc] at hfirst
    rw [← List.append_assoc]
    exact firstIndex_append_congr hfirst (by rw [List.length_append])
  single := by
    have hrest : firstIndex singleLinebreak rest = some 0 :=
      firstIndex_eq_some_iff.mpr ⟨Nat.zero_le _, h.linebreak, fun j hj => by omega⟩
    rw [singleLinebreak, firstIndex_append_of_notMem hvalue, ← singleLinebreak, hrest]
    rfl

theorem exists_parts (hp : find bytes contentLength 0 = some p)
    (hd : find bytes doubleLinebreak p = some d) :
    ∃ pre value rest, Parts bytes pre value rest ∧ pre.length = p := by
  rw [find_drop (Nat.zero_le _), List.drop_zero, Option.map_eq_some_iff] at hp
  obtain ⟨q, hq, rfl⟩ := hp
  rw [Nat.zero_add] at hd ⊢
  have hle := le_length_of_firstIndex hq
  have heq := eq_of_firstIndex hq
  rw [length_contentLength] at hle heq
  rw [find_drop (by omega), Option.map_eq_some_iff] at hd
  obtain ⟨e, he, -⟩ := hd
  have htake : (bytes.take q).length = q := List.length_take_of_le (by omega)
  have hdrop : bytes.drop q = contentLength ++ bytes.drop (q + 16) := by
    conv_lhs => rw [heq, List.append_assoc]
    rw [List.drop_left' htake]
  have hinfix : singleLinebreak <:+: bytes.drop (q + 16) := by
    rw [hdrop, doubleLinebreak, firstIndex_append_of_notMem (by decide)] at he
    obtain ⟨m, hm, -⟩ := Option.map_eq_some_iff.mp he
    have hstarts := (firstIndex_eq_some_iff.mp hm).2.1
    have hshort : singleLinebreak <+: doubleLinebreak := by decide
    exact (hshort.trans hstarts).isInfix.trans (List.drop_suffix _ _).isInfix
  obtain ⟨m, hm⟩ := Option.ne_none_iff_exists'.mp
    fun hnone => firstIndex_eq_none_iff.mp hnone hinfix
  have hm' := le_length_of_firstIndex hm
  refine ⟨bytes.take q, (bytes.drop (q + 16)).take m, (bytes.drop (q + 16)).drop m, ⟨?_, ?_, ?_⟩,
    htake⟩
  · rw [List.take_append_drop, ← List.append_assoc]
    exact heq
  · rw [htake]
    exact hq
  · rw [List.take_append_drop, hm, List.length_take_of_le (by omega)]

theorem Parts.found_iff (h : Parts bytes pre value rest) :
    Found bytes p s d ↔ p = pre.length ∧ s = pre.length + 16 + value.length ∧
      ∃ k, firstIndex doubleLinebreak rest = some k ∧ d = s + k := by
  constructor
  · intro hfound
    obtain rfl := Option.some.inj (h.find_contentLength.symm.trans hfound.header)
    obtain rfl := Option.some.inj (h.find_singleLinebreak.symm.trans hfound.linebreak)
    have hend := hfound.headersEnd
    rw [h.find_doubleLinebreak] at hend
    obtain ⟨k, hk, rfl⟩ := Option.map_eq_some_iff.mp hend
    exact ⟨rfl, rfl, k, hk, rfl⟩
  · rintro ⟨rfl, rfl, k, hk, rfl⟩
    refine ⟨h.find_contentLength, h.find_singleLinebreak, ?_⟩
    rw [h.find_doubleLinebreak, hk, Option.map_some]

/-- The value, seen from the request. -/
theorem Parts.value_eq (h : Parts bytes pre value rest) :
    (bytes.take (pre.length + 16 + value.length)).drop (pre.length + 16) = value := by
  rw [List.drop_take, h.drop.2, Nat.add_sub_cancel_left, List.take_left]

/-! ### The length of the body -/

/-- The difference is known modulo `2 ^ 32`, so that it is the number of bytes behind the headers
or one that is no `int`. -/
theorem realContentLength_eq_some {body : ℕ} (hbody : body < 2 ^ 31) {real : ℤ} :
    realContentLength (d + 4 + body) d = some real ↔
      (4 + body < 2 ^ 31 ∧ intOf d + (4 + body : ℕ) < 2 ^ 31) ∧ real = body := by
  simp only [realContentLength, Option.bind_eq_some_iff, toInt_eq_some]
  constructor
  · rintro ⟨n, ⟨hn, rfl⟩, hreal, rfl⟩
    unfold IsInt intOf at *
    push_cast at *
    omega
  · rintro ⟨h, rfl⟩
    have hdiff : intOf (d + 4 + body) - intOf d = (4 + body : ℕ) := by
      unfold intOf at *
      push_cast at *
      omega
    rw [hdiff]
    refine ⟨_, ⟨⟨?_, ?_⟩, rfl⟩, ⟨?_, ?_⟩, ?_⟩ <;> push_cast <;> omega

theorem decimal_natCast (n : ℕ) : decimal n = Nat.toDigits 10 n := by
  rw [decimal, if_neg (by omega), Int.natAbs_natCast]

theorem atoi_toDigits_append {n : ℕ} (hn : n < 2 ^ 31) {text : List Char}
    (htext : ∀ c ∈ text.head?, c.isDigit = false) :
    atoi overflow (Nat.toDigits 10 n ++ text) = n := by
  rw [atoi, integerOf_toDigits_append n htext]
  exact if_pos ⟨by omega, by omega⟩

/-! ### The new value -/

/-- The number with blanks behind it. -/
def newValue (length body : ℕ) : List Char :=
  Nat.toDigits 10 body ++ List.replicate (length - (Nat.toDigits 10 body).length) ' '

variable {n body : ℕ}

theorem length_newValue (h : (Nat.toDigits 10 body).length ≤ n) :
    (newValue n body).length = n := by
  rw [newValue, List.length_append, List.length_replicate]
  omega

theorem linebreak_notMem_newValue (n body : ℕ) : '\r' ∉ newValue n body := by
  rw [newValue, List.mem_append, List.mem_replicate, not_or]
  refine ⟨fun h => ?_, fun h => absurd h.2 (by decide)⟩
  have := Nat.isDigit_of_mem_toDigits (by decide) (by decide) h
  exact absurd this (by decide)

theorem integerOf_newValue (n body : ℕ) : integerOf (newValue n body) = some (body : ℤ) := by
  refine integerOf_toDigits_append body fun c hc => ?_
  rw [List.eq_of_mem_replicate (List.mem_of_mem_head? hc)]
  decide

theorem Parts.atoi_newValue (h : Parts bytes pre value rest) (hbody : body < 2 ^ 31) (n : ℕ) :
    atoi overflow (newValue n body ++ rest) = body := by
  rw [newValue, List.append_assoc]
  refine atoi_toDigits_append hbody fun c hc => ?_
  cases hblanks : n - (Nat.toDigits 10 body).length with
  | zero =>
    obtain ⟨tail, rfl⟩ := h.linebreak
    rw [hblanks] at hc
    obtain rfl : '\r' = c := by simpa [singleLinebreak] using hc
    decide
  | succ m =>
    rw [hblanks] at hc
    obtain rfl : ' ' = c := by simpa [List.replicate_succ] using hc
    decide

/-! ### What the function does -/

theorem fix_of_not_found (h : ∀ p s d, ¬ Found bytes p s d) :
    fixHTTPContentLength overflow bytes = some bytes := by
  unfold fixHTTPContentLength
  cases hp : find bytes contentLength 0 with
  | none => rfl
  | some p =>
    cases hd : find bytes doubleLinebreak p with
    | none => simp [hd]
    | some d =>
      obtain ⟨pre, value, rest, hparts, rfl⟩ := exists_parts hp hd
      exact absurd ⟨hp, hparts.find_singleLinebreak, hd⟩ (h _ _ _)

theorem Parts.fix_eq (h : Parts bytes pre value rest)
    (hk : firstIndex doubleLinebreak rest = some k) :
    fixHTTPContentLength overflow bytes =
      (realContentLength bytes.length (pre.length + 16 + value.length + k)).bind fun real =>
        if atoi overflow (value ++ rest) ≤ real then some bytes
        else
          (put bytes (pre.length + 16) (List.replicate value.length ' ')).bind fun bytes =>
            put bytes (pre.length + 16) (decimal real) := by
  have hd : find bytes doubleLinebreak pre.length =
      some (pre.length + 16 + value.length + k) := by
    rw [h.find_doubleLinebreak, hk, Option.map_some]
  unfold fixHTTPContentLength
  simp only [h.find_contentLength, hd, h.drop.2, h.find_singleLinebreak, Option.bind_eq_bind,
    Option.bind_some, Nat.add_sub_cancel_left]

theorem Parts.put_blanks (h : Parts bytes pre value rest) :
    put bytes (pre.length + 16) (List.replicate value.length ' ') =
      some (pre ++ (contentLength ++ (List.replicate value.length ' ' ++ rest))) := by
  have hlength := h.length
  have htake : bytes.take (pre.length + 16) = pre ++ contentLength := by
    rw [h.eq, ← List.append_assoc, ← length_contentLength, ← List.length_append, List.take_left]
  rw [put_eq (by rw [List.length_replicate]; omega), htake, List.length_replicate,
    ← List.drop_drop, h.drop.2, List.drop_left, List.append_assoc]

/-- With room for the new value, the old one is replaced. -/
theorem Parts.put_value (h : Parts bytes pre value rest)
    (hroom : (Nat.toDigits 10 body).length ≤ value.length) :
    put (pre ++ (contentLength ++ (List.replicate value.length ' ' ++ rest))) (pre.length + 16)
        (Nat.toDigits 10 body) =
      some (pre ++ (contentLength ++ (newValue value.length body ++ rest))) := by
  have hblanks : Parts (pre ++ (contentLength ++ (List.replicate value.length ' ' ++ rest))) pre
      (List.replicate value.length ' ') rest :=
    h.replace fun hmem => absurd (List.eq_of_mem_replicate hmem) (by decide)
  have hlength := hblanks.length
  rw [List.length_replicate] at hlength
  have htake : (pre ++ (contentLength ++ (List.replicate value.length ' ' ++ rest))).take
      (pre.length + 16) = pre ++ contentLength := by
    rw [← List.append_assoc, ← length_contentLength, ← List.length_append, List.take_left]
  rw [put_eq (by omega), htake, ← List.drop_drop, hblanks.drop.2,
    List.drop_append_of_le_length (by rw [List.length_replicate]; exact hroom),
    List.drop_replicate, newValue]
  simp only [List.append_assoc]

/-! ### When it is right -/

theorem Parts.length_body (h : Parts bytes pre value rest) (hrest : rest.length = k + 4 + body) :
    bytes.length = pre.length + 16 + value.length + k + 4 + body := by
  rw [h.length, hrest]
  omega

/-- What `Found` says is known of the parts. -/
theorem Parts.forall_found (h : Parts bytes pre value rest)
    (hk : firstIndex doubleLinebreak rest = some k) {P : ℕ → ℕ → ℕ → Prop} :
    (∀ p s d, Found bytes p s d → P p s d) ↔
      P pre.length (pre.length + 16 + value.length) (pre.length + 16 + value.length + k) := by
  constructor
  · intro hall
    exact hall _ _ _ (h.found_iff.mpr ⟨rfl, rfl, k, hk, rfl⟩)
  · intro hparts p s d hfound
    obtain ⟨rfl, rfl, k', hk', rfl⟩ := h.found_iff.mp hfound
    obtain rfl := Option.some.inj (hk.symm.trans hk')
    exact hparts

theorem Parts.fits_iff (h : Parts bytes pre value rest)
    (hk : firstIndex doubleLinebreak rest = some k) (hrest : rest.length = k + 4 + body) :
    Fits overflow bytes ↔
      (4 + body < 2 ^ 31 ∧
        intOf (pre.length + 16 + value.length + k) + (4 + body : ℕ) < 2 ^ 31) ∧
      (body < atoi overflow (value ++ rest) →
        (Nat.toDigits 10 body).length ≤ value.length) ∧
      ∀ n, integerOf value = some n → body < n → body < atoi overflow (value ++ rest) := by
  have hlength := h.length_body hrest
  have hd : bytes.length - (pre.length + 16 + value.length + k) = 4 + body := by omega
  have hbody : bytes.length - (pre.length + 16 + value.length + k + 4) = body := by omega
  have hint := h.forall_found hk (P := fun p s d => bytes.length - d < 2 ^ 31 ∧
    intOf d + (bytes.length - d : ℕ) < 2 ^ 31)
  have hroom := h.forall_found hk (P := fun p s d => ((bytes.length - (d + 4) : ℕ) : ℤ) <
    atoi overflow (bytes.drop (p + 16)) →
      (Nat.toDigits 10 (bytes.length - (d + 4))).length ≤ s - (p + 16))
  have hseen := h.forall_found hk (P := fun p s d => ∀ n,
    integerOf ((bytes.take s).drop (p + 16)) = some n →
      ((bytes.length - (d + 4) : ℕ) : ℤ) < n →
        ((bytes.length - (d + 4) : ℕ) : ℤ) < atoi overflow (bytes.drop (p + 16)))
  simp only [hd, hbody, h.drop.2, h.value_eq, Nat.add_sub_cancel_left] at hint hroom hseen
  constructor
  · rintro ⟨hint', hroom', hseen'⟩
    exact ⟨hint.mp hint', hroom.mp hroom', hseen.mp fun p s d hfound n => hseen' p s d n hfound⟩
  · rintro ⟨hint', hroom', hseen'⟩
    exact ⟨hint.mpr hint', hroom.mpr hroom',
      fun p s d n hfound => hseen.mpr hseen' p s d hfound n⟩

/-- Neither overflow nor lowering: the request stays as it is. -/
theorem Parts.fix_of_le (h : Parts bytes pre value rest)
    (hk : firstIndex doubleLinebreak rest = some k) (hrest : rest.length = k + 4 + body)
    (hbody : body < 2 ^ 31)
    (hint : 4 + body < 2 ^ 31 ∧
      intOf (pre.length + 16 + value.length + k) + (4 + body : ℕ) < 2 ^ 31)
    (hle : atoi overflow (value ++ rest) ≤ body) :
    fixHTTPContentLength overflow bytes = some bytes := by
  rw [h.fix_eq hk, h.length_body hrest, (realContentLength_eq_some hbody).mpr ⟨hint, rfl⟩,
    Option.bind_some, if_pos hle]

/-- The value is lowered: with room for the new one it replaces the old one. -/
theorem Parts.fix_of_lt (h : Parts bytes pre value rest)
    (hk : firstIndex doubleLinebreak rest = some k) (hrest : rest.length = k + 4 + body)
    (hbody : body < 2 ^ 31)
    (hint : 4 + body < 2 ^ 31 ∧
      intOf (pre.length + 16 + value.length + k) + (4 + body : ℕ) < 2 ^ 31)
    (hlt : body < atoi overflow (value ++ rest)) :
    fixHTTPContentLength overflow bytes =
      put (pre ++ (contentLength ++ (List.replicate value.length ' ' ++ rest)))
        (pre.length + 16) (Nat.toDigits 10 body) := by
  rw [h.fix_eq hk, h.length_body hrest, (realContentLength_eq_some hbody).mpr ⟨hint, rfl⟩,
    Option.bind_some, if_neg (by omega), h.put_blanks, Option.bind_some, decimal_natCast]

/-- A number that has no room reaches the line break. -/
theorem Parts.room_of_inside (h : Parts bytes pre value rest)
    (hrest : rest.length = k + 4 + body)
    (hput : put (pre ++ (contentLength ++ (List.replicate value.length ' ' ++ rest)))
      (pre.length + 16) (Nat.toDigits 10 body) = some result)
    (hinside : ∀ i, result[i]? ≠ bytes[i]? → ∃ p s, find bytes contentLength 0 = some p ∧
      find bytes singleLinebreak p = some s ∧ p + 16 ≤ i ∧ i < s) :
    (Nat.toDigits 10 body).length ≤ value.length := by
  by_contra hroom
  have hblanks : Parts (pre ++ (contentLength ++ (List.replicate value.length ' ' ++ rest))) pre
      (List.replicate value.length ' ') rest :=
    h.replace fun hmem => absurd (List.eq_of_mem_replicate hmem) (by decide)
  have hlength := hblanks.length
  rw [List.length_replicate] at hlength
  have hdigit : ∀ c ∈ Nat.toDigits 10 body, c.isDigit = true :=
    fun c hc => Nat.isDigit_of_mem_toDigits (by decide) (by decide) hc
  have hfew : (Nat.toDigits 10 body).length ≤ body + 1 := by
    rw [Nat.length_toDigits_le_iff (by decide) (by omega)]
    exact (Nat.lt_pow_self (by decide)).trans_le (Nat.pow_le_pow_right (by decide) (by omega))
  generalize Nat.toDigits 10 body = digits at *
  have hin : pre.length + 16 + digits.length ≤
      (pre ++ (contentLength ++ (List.replicate value.length ' ' ++ rest))).length := by omega
  obtain ⟨result', hresult', -, hwritten, -⟩ := put_spec hin
  obtain rfl := Option.some.inj (hput.symm.trans hresult')
  -- what stands where the line break begins
  have hnew : result[pre.length + 16 + value.length]? = digits[value.length]? := by
    rw [← hwritten, List.getElem?_take_of_lt (by omega), List.getElem?_drop]
  have hold : bytes[pre.length + 16 + value.length]? = some '\r' := by
    obtain ⟨tail, rfl⟩ := h.linebreak
    rw [← List.getElem?_drop, h.drop.2, List.getElem?_append_right (Nat.le_refl _), Nat.sub_self]
    rfl
  have hdiffer : result[pre.length + 16 + value.length]? ≠
      bytes[pre.length + 16 + value.length]? := by
    rw [hnew, hold]
    exact fun hcr => absurd (hdigit _ (List.mem_of_getElem? hcr)) (by decide)
  obtain ⟨p, s, hp, hs, -, hlt⟩ := hinside _ hdiffer
  obtain rfl := Option.some.inj (h.find_contentLength.symm.trans hp)
  obtain rfl := Option.some.inj (h.find_singleLinebreak.symm.trans hs)
  exact absurd hlt (Nat.lt_irrefl _)

/-- What is not in the value is not changed. -/
theorem Parts.inside_replace (h : Parts bytes pre value rest)
    (hvalue : value'.length = value.length) (i : ℕ)
    (hi : (pre ++ (contentLength ++ (value' ++ rest)))[i]? ≠ bytes[i]?) :
    ∃ p s, find bytes contentLength 0 = some p ∧ find bytes singleLinebreak p = some s ∧
      p + 16 ≤ i ∧ i < s := by
  refine ⟨_, _, h.find_contentLength, h.find_singleLinebreak, ?_⟩
  by_contra hout
  apply hi
  have hpre : (pre ++ contentLength).length = pre.length + 16 := by
    rw [List.length_append, length_contentLength]
  rw [h.eq, ← List.append_assoc pre contentLength (value' ++ rest),
    ← List.append_assoc pre contentLength (value ++ rest)]
  generalize pre ++ contentLength = header at hpre
  rcases Nat.lt_or_ge i header.length with hbefore | hbehind
  · rw [List.getElem?_append_left hbefore, List.getElem?_append_left hbefore]
  · rw [List.getElem?_append_right hbehind, List.getElem?_append_right hbehind,
      List.getElem?_append_right (by omega), List.getElem?_append_right (by omega), hvalue]

theorem Parts.lowered_of_fits (h : Parts bytes pre value rest)
    (hk : firstIndex doubleLinebreak rest = some k) (hrest : rest.length = k + 4 + body)
    (hbody : body < 2 ^ 31) (hfits : Fits overflow bytes) :
    ∃ result, Lowered overflow bytes result := by
  obtain ⟨hint, hroom, hseen⟩ := (h.fits_iff hk hrest).mp hfits
  have hlength := h.length_body hrest
  rcases Int.lt_or_le (body : ℤ) (atoi overflow (value ++ rest)) with hlt | hle
  · have hroom := hroom hlt
    have hsame := length_newValue hroom
    have hnew := h.replace (linebreak_notMem_newValue value.length body)
    have hfixed := h.fix_of_lt hk hrest hbody hint hlt
    rw [h.put_value hroom] at hfixed
    have hlength' := hnew.length_body hrest
    rw [hsame] at hlength'
    refine ⟨_, hfixed, by rw [hlength, hlength'], h.inside_replace hsame, ?_, ?_⟩
    · intro p s d n hfound hn
      obtain ⟨rfl, rfl, k', hk', rfl⟩ := hnew.found_iff.mp hfound
      obtain rfl := Option.some.inj (hk.symm.trans hk')
      rw [hnew.value_eq, integerOf_newValue, Option.some.injEq] at hn
      rw [← hn, hlength', hsame]
      omega
    · refine hnew.fix_of_le hk hrest hbody (by rwa [hsame]) ?_
      rw [h.atoi_newValue hbody]
  · have hfixed := h.fix_of_le hk hrest hbody hint hle
    refine ⟨bytes, hfixed, rfl, fun i hi => absurd rfl hi, ?_, hfixed⟩
    intro p s d n hfound hn
    obtain ⟨rfl, rfl, k', hk', rfl⟩ := h.found_iff.mp hfound
    obtain rfl := Option.some.inj (hk.symm.trans hk')
    rw [h.value_eq] at hn
    by_contra hmore
    have := hseen n hn (by omega)
    omega

theorem Parts.fits_of_lowered (h : Parts bytes pre value rest)
    (hk : firstIndex doubleLinebreak rest = some k) (hrest : rest.length = k + 4 + body)
    (hbody : body < 2 ^ 31) (hlowered : Lowered overflow bytes result) : Fits overflow bytes := by
  have hlength := h.length_body hrest
  have hfixed := hlowered.fixed
  have hint : 4 + body < 2 ^ 31 ∧
      intOf (pre.length + 16 + value.length + k) + (4 + body : ℕ) < 2 ^ 31 := by
    rw [h.fix_eq hk, Option.bind_eq_some_iff] at hfixed
    obtain ⟨real, hreal, -⟩ := hfixed
    rw [hlength, realContentLength_eq_some hbody] at hreal
    exact hreal.1
  refine (h.fits_iff hk hrest).mpr ⟨hint, fun hlt => ?_, fun n hn hmore => ?_⟩
  · rw [h.fix_of_lt hk hrest hbody hint hlt] at hfixed
    exact h.room_of_inside hrest hfixed hlowered.inside
  · by_contra hle
    rw [h.fix_of_le hk hrest hbody hint (by omega), Option.some.injEq] at hfixed
    subst hfixed
    have hvalue := hlowered.value _ _ _ n (h.found_iff.mpr ⟨rfl, rfl, k, hk, rfl⟩)
      (by rw [h.value_eq, hn])
    omega

/-- The number is lowered in its place exactly if it has the room there and is read as it
stands. -/
theorem lowered_iff (hbody : ShortBody bytes) :
    (∃ result, Lowered overflow bytes result) ↔ Fits overflow bytes := by
  by_cases hfound : ∃ p s d, Found bytes p s d
  · obtain ⟨p, s, d, hfound⟩ := hfound
    obtain ⟨pre, value, rest, h, rfl⟩ := exists_parts hfound.header hfound.headersEnd
    obtain ⟨-, -, k, hk, -⟩ := h.found_iff.mp hfound
    have hle := le_length_of_firstIndex hk
    obtain ⟨body, hrest⟩ := Nat.exists_eq_add_of_le hle
    have hlength := h.length_body hrest
    have hshort := hbody _ _ _ (h.found_iff.mpr ⟨rfl, rfl, k, hk, rfl⟩)
    have hbody : body < 2 ^ 31 := by omega
    exact ⟨fun ⟨_, hlowered⟩ => h.fits_of_lowered hk hrest hbody hlowered,
      h.lowered_of_fits hk hrest hbody⟩
  · push Not at hfound
    have hfixed : fixHTTPContentLength overflow bytes = some bytes := fix_of_not_found hfound
    refine iff_of_true ⟨bytes, hfixed, rfl, fun i hi => absurd rfl hi, ?_, hfixed⟩ ⟨?_, ?_, ?_⟩
    · exact fun p s d _ hd => absurd hd (hfound p s d)
    · exact fun p s d hd => absurd hd (hfound p s d)
    · exact fun p s d hd => absurd hd (hfound p s d)
    · exact fun p s d _ hd => absurd hd (hfound p s d)

/-- `Content-Length: 9`, with a body of three bytes. -/
theorem lowered_nine : ∃ result, Lowered ⟨fun _ => 0, fun _ => by decide⟩
    (contentLength ++ ['9', '\r', '\n', '\r', '\n', 'a', 'b', 'c']) result := by
  have h : Parts (contentLength ++ ['9', '\r', '\n', '\r', '\n', 'a', 'b', 'c']) [] ['9']
      ['\r', '\n', '\r', '\n', 'a', 'b', 'c'] := ⟨by decide, by decide, by decide⟩
  have hk : firstIndex doubleLinebreak ['\r', '\n', '\r', '\n', 'a', 'b', 'c'] = some 0 := by
    decide
  have hrest : ['\r', '\n', '\r', '\n', 'a', 'b', 'c'].length = 0 + 4 + 3 := by decide
  refine (lowered_iff fun p s d _ => ?_).mpr
    ((h.fits_iff hk hrest).mpr ⟨by decide, fun _ => by decide, fun n hn _ => ?_⟩)
  · have : (contentLength ++ ['9', '\r', '\n', '\r', '\n', 'a', 'b', 'c']).length = 24 := by decide
    omega
  · decide

/-- The value is empty: what is read is the text behind the line break, and what is written takes
the place of its first character. -/
theorem not_lowered : ¬ ∀ overflow bytes, ShortBody bytes →
    ∃ result, Lowered overflow bytes result := by
  intro hall
  have h : Parts (contentLength ++ ['\r', '\n', '1', '2', '\r', '\n', '\r', '\n']) [] []
      ['\r', '\n', '1', '2', '\r', '\n', '\r', '\n'] := ⟨by decide, by decide, by decide⟩
  have hk : firstIndex doubleLinebreak
      ['\r', '\n', '1', '2', '\r', '\n', '\r', '\n'] = some 4 := by
    decide
  have hrest : ['\r', '\n', '1', '2', '\r', '\n', '\r', '\n'].length = 4 + 4 + 0 := by decide
  obtain ⟨result, hlowered⟩ := hall ⟨fun _ => 0, fun _ => by decide⟩
    (contentLength ++ ['\r', '\n', '1', '2', '\r', '\n', '\r', '\n']) fun p s d _ => by
      have : (contentLength ++ ['\r', '\n', '1', '2', '\r', '\n', '\r', '\n']).length = 24 := by
        decide
      omega
  have hfits := h.fits_of_lowered hk hrest (by decide) hlowered
  obtain ⟨-, hroom, -⟩ := (h.fits_iff hk hrest).mp hfits
  exact absurd (hroom (by decide)) (by decide)

end Fluffi.TCPFeeder
