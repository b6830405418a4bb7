import Fluffi.Systems.EditScripts
import Fluffi.Shared.Files

/-! The merge of two parents. The parents are compared by their hexadecimal digits, the strategy and
a coin choose from the differences, and what is collected is decoded again. -/

namespace Fluffi.Oedipus

open Fluffi.Systems Fluffi.Systems.EditScripts Fluffi.Shared

/-! ### Hexadecimal digits -/

def hextable : List Char := "0123456789abcdef".toList

def hexDigit (d : ℕ) : Char := hextable.getD d '0'

def encodeToString (src : Bytes) : List Char :=
  src.flatMap fun v => [hexDigit (v.toNat / 16), hexDigit (v.toNat % 16)]

def fromHexChar (c : Char) : Option ℕ :=
  if '0' ≤ c ∧ c ≤ '9' then some (c.toNat - '0'.toNat)
  else if 'a' ≤ c ∧ c ≤ 'f' then some (c.toNat - 'a'.toNat + 10)
  else if 'A' ≤ c ∧ c ≤ 'F' then some (c.toNat - 'A'.toNat + 10)
  else none

inductive DecodeError where
  | length
  | invalidByte (c : Char)
  deriving DecidableEq

/-- The bytes before the first error, and the error. -/
def decodeString : List Char → Bytes × Option DecodeError
  | [] => ([], none)
  | [c] => ([], if fromHexChar c = none then some (.invalidByte c) else some .length)
  | c :: d :: src =>
    match fromHexChar c, fromHexChar d with
    | none, _ => ([], some (.invalidByte c))
    | some _, none => ([], some (.invalidByte d))
    | some hi, some lo =>
      (UInt8.ofNat (hi * 16 + lo) :: (decodeString src).1, (decodeString src).2)

/-! ### The merge -/

def LEFT : UInt8 := 1

def RIGHT : UInt8 := 2

def INSERT : UInt8 := 4

def DELETE : UInt8 := 8

abbrev Diff := Piece Char

/-- Whether the text of a difference is written. -/
def written (strat : UInt8) (coin : Bool) : Operation → Bool
  | .insert => coin && strat &&& INSERT != 0
  | .delete => coin && strat &&& DELETE != 0
  | .equal => true

/-- The differences, and whether they are written. The coin is tossed `k` times before, and not for
equal ones. -/
def marked (strat : UInt8) (coins : ℕ → Bool) : ℕ → List Diff → List (Diff × Bool)
  | _, [] => []
  | k, d :: diffs =>
    (d, written strat (coins k) d.type) ::
      marked strat coins (if d.type = .equal then k else k + 1) diffs

/-- The parent that is an argument of the comparison. A random number below one is zero. -/
def parents (strat : UInt8) (draw : ℕ) (a1 a2 : Bytes) : Side → Bytes
  | .first =>
    if strat &&& LEFT != 0 then a1
    else if strat &&& RIGHT != 0 then a2
    else if draw % 1 = 1 then a1 else a2
  | .second =>
    if strat &&& LEFT != 0 then a2
    else if strat &&& RIGHT != 0 then a1
    else if draw % 1 = 1 then a2 else a1

/-- What the merge does not decide: the comparison of texts, the coin, and a random number. -/
structure Chances where
  diffMain : List Char → List Char → List Diff
  contract : ∀ x y, IsScript x y (diffMain x y)
  coins : ℕ → Bool
  draw : ℕ

def Chances.diffs (c : Chances) (strat : UInt8) (a1 a2 : Bytes) : List Diff :=
  c.diffMain (encodeToString (parents strat c.draw a1 a2 .first))
    (encodeToString (parents strat c.draw a1 a2 .second))

/-- The text that is collected. -/
def Chances.buffer (c : Chances) (strat : UInt8) (a1 a2 : Bytes) : List Char :=
  kept (marked strat c.coins 0 (c.diffs strat a1 a2))

def mergeInputs (c : Chances) (strat : UInt8) (a1 a2 : Bytes) : Bytes :=
  (decodeString (c.buffer strat a1 a2)).1

/-- The spans of the texts that are written. -/
def Chances.spans (c : Chances) (strat : UInt8) (a1 a2 : Bytes) : List Span :=
  EditScripts.spans (fun _ => 0) (marked strat c.coins 0 (c.diffs strat a1 a2))

/-- The byte of the child at `k` is the one of a parent at `j`, and its digits are from there. -/
structure FromParent (c : Chances) (strat : UInt8) (a1 a2 : Bytes) (k : ℕ) (s : Side) (j : ℕ) :
    Prop where
  byte : ∃ b, (mergeInputs c strat a1 a2)[k]? = some b ∧ (parents strat c.draw a1 a2 s)[j]? = some b
  high : ∃ o, (origins (c.spans strat a1 a2))[2 * k]? = some o ∧ o s = some (2 * j)
  low : ∃ o, (origins (c.spans strat a1 a2))[2 * k + 1]? = some o ∧ o s = some (2 * j + 1)

/-- The strategies of deletion to the right, and of insertion to the left. -/
def Reproduces (strat : UInt8) : Prop :=
  strat &&& LEFT = 0 ∧ strat &&& RIGHT ≠ 0 ∧ strat &&& DELETE ≠ 0 ∧ strat &&& INSERT = 0 ∨
    strat &&& LEFT ≠ 0 ∧ strat &&& INSERT ≠ 0 ∧ strat &&& DELETE = 0

/-- The merge is of whole bytes, and gives the second parent when it is to. -/
structure MergesWhole (c : Chances) (strat : UInt8) (a1 a2 : Bytes) : Prop where
  even : (c.buffer strat a1 a2).length % 2 = 0
  decoded : (decodeString (c.buffer strat a1 a2)).2 = none
  whole : ∀ k < (mergeInputs c strat a1 a2).length, ∃ s j, FromParent c strat a1 a2 k s j
  length : (mergeInputs c strat a1 a2).length = (c.buffer strat a1 a2).length / 2
  reproduced : (∀ k, c.coins k = true) → Reproduces strat → mergeInputs c strat a1 a2 = a2

/-! ### Digits and bytes -/

theorem fromHexChar_hexDigit : ∀ d < 16, fromHexChar (hexDigit d) = some d := by
  decide

section Bytes

variable {src : Bytes} {text : List Char} {k j : ℕ} {c d : Char} {b : UInt8}

theorem encodeToString_cons (b : UInt8) (src : Bytes) :
    encodeToString (b :: src) =
      hexDigit (b.toNat / 16) :: hexDigit (b.toNat % 16) :: encodeToString src := rfl

theorem nibbles_lt (b : UInt8) : b.toNat / 16 < 16 ∧ b.toNat % 16 < 16 := by
  have := b.toNat_lt
  omega

theorem ofNat_nibbles (b : UInt8) : UInt8.ofNat (b.toNat / 16 * 16 + b.toNat % 16) = b := by
  rw [Nat.div_add_mod', UInt8.ofNat_toNat]

theorem decodeString_cons {hi lo : ℕ} (hc : fromHexChar c = some hi) (hd : fromHexChar d = some lo)
    (text : List Char) :
    decodeString (c :: d :: text) =
      (UInt8.ofNat (hi * 16 + lo) :: (decodeString text).1, (decodeString text).2) := by
  rw [decodeString, hc, hd]

/-- What is encoded is decoded. -/
theorem decodeString_encodeToString (src : Bytes) :
    decodeString (encodeToString src) = (src, none) := by
  induction src with
  | nil => rfl
  | cons b src ih =>
    obtain ⟨hhi, hlo⟩ := nibbles_lt b
    rw [encodeToString_cons, decodeString_cons (fromHexChar_hexDigit _ hhi)
      (fromHexChar_hexDigit _ hlo), ih, ofNat_nibbles]

theorem getElem?_encodeToString (src : Bytes) (j : ℕ) :
    (encodeToString src)[2 * j]? = (src[j]?).map (fun b => hexDigit (b.toNat / 16)) ∧
      (encodeToString src)[2 * j + 1]? = (src[j]?).map fun b => hexDigit (b.toNat % 16) := by
  induction src generalizing j with
  | nil => exact ⟨rfl, rfl⟩
  | cons b src ih =>
    cases j with
    | zero => exact ⟨rfl, rfl⟩
    | succ j => exact ih j

theorem isHex_encodeToString (h : c ∈ encodeToString src) : ∃ d < 16, c = hexDigit d := by
  obtain ⟨b, -, hc⟩ := List.mem_flatMap.mp h
  obtain ⟨hhi, hlo⟩ := nibbles_lt b
  rcases List.mem_cons.mp hc with rfl | hc
  · exact ⟨_, hhi, rfl⟩
  · exact ⟨_, hlo, List.mem_singleton.mp hc⟩

/-- Digits in pairs are decoded to a byte for each pair. -/
theorem decodeString_pairs : ∀ {text : List Char}, (∀ c ∈ text, ∃ d < 16, c = hexDigit d) →
    text.length % 2 = 0 →
    (decodeString text).2 = none ∧ (decodeString text).1.length = text.length / 2 ∧
      ∀ (k : ℕ) (b : UInt8), text[2 * k]? = some (hexDigit (b.toNat / 16)) →
        text[2 * k + 1]? = some (hexDigit (b.toNat % 16)) → (decodeString text).1[k]? = some b
  | [], _, _ => ⟨rfl, rfl, fun k b h => by rw [List.getElem?_nil] at h; cases h⟩
  | [_], _, h => absurd h (by simp)
  | c :: d :: text, hhex, hlen => by
    rw [List.forall_mem_cons, List.forall_mem_cons] at hhex
    obtain ⟨⟨hi, hhi, rfl⟩, ⟨lo, hlo, rfl⟩, hrest⟩ := hhex
    have hpair := decodeString_cons (fromHexChar_hexDigit hi hhi) (fromHexChar_hexDigit lo hlo) text
    rw [List.length_cons, List.length_cons] at hlen
    obtain ⟨hnone, hlength, hget⟩ := decodeString_pairs hrest (by omega)
    rw [hpair]
    refine ⟨hnone, ?_, fun k b hhigh hlow => ?_⟩
    · simp only [List.length_cons]
      omega
    · cases k with
      | zero =>
        obtain ⟨hbhi, hblo⟩ := nibbles_lt b
        have hinj : ∀ {m n : ℕ}, m < 16 → n < 16 → hexDigit m = hexDigit n → m = n := by
          intro m n hm hn h
          have hm' := fromHexChar_hexDigit m hm
          rw [h, fromHexChar_hexDigit n hn] at hm'
          exact (Option.some.inj hm').symm
        obtain rfl := hinj hhi hbhi (Option.some.inj hhigh)
        obtain rfl := hinj hlo hblo (Option.some.inj hlow)
        exact congrArg some (ofNat_nibbles b)
      | succ k => exact hget k b hhigh hlow

end Bytes

/-! ### The child -/

section Child

variable {c : Chances} {strat : UInt8} {a1 a2 : Bytes} {diffs : List Diff} {k : ℕ} {s : Side}

theorem map_fst_marked (strat : UInt8) (coins : ℕ → Bool) (k : ℕ) (diffs : List Diff) :
    (marked strat coins k diffs).map Prod.fst = diffs := by
  induction diffs generalizing k with
  | nil => rfl
  | cons d diffs ih => rw [marked, List.map_cons, ih]

/-- If the pieces of a list of the script are written, and no others, the list is. -/
theorem kept_marked {coins : ℕ → Bool}
    (h : ∀ k (o : Operation), written strat (coins k) o = o.on s) :
    kept (marked strat coins k diffs) = side s diffs := by
  induction diffs generalizing k with
  | nil => rfl
  | cons d diffs ih => rw [marked, kept_cons, side_cons, h, ih]

theorem side_diffs (c : Chances) (strat : UInt8) (a1 a2 : Bytes) (s : Side) :
    side s (c.diffs strat a1 a2) = encodeToString (parents strat c.draw a1 a2 s) := by
  cases s with
  | first => exact (c.contract _ _).1
  | second => exact (c.contract _ _).2

/-- A digit that is collected is the one at its position in a parent. -/
theorem buffer_getElem? {i p : ℕ} {o : Origin}
    (ho : (origins (c.spans strat a1 a2))[i]? = some o) (hp : o s = some p) :
    (c.buffer strat a1 a2)[i]? = (encodeToString (parents strat c.draw a1 a2 s))[p]? := by
  have hkept := @kept_eq_side _ _ _ _ _ _ _ (fun _ => []) (fun _ => rfl) ho hp
  rw [map_fst_marked, side_diffs, List.nil_append] at hkept
  exact hkept

theorem isHex_buffer : ∀ x ∈ c.buffer strat a1 a2, ∃ d < 16, x = hexDigit d := by
  have hdiff : ∀ d ∈ c.diffs strat a1 a2, ∀ x ∈ d.text, ∃ n < 16, x = hexDigit n := by
    intro d hd x hx
    obtain ⟨s, hs⟩ : ∃ s, d.type.on s = true := by
      cases d.type with
      | insert => exact ⟨.second, rfl⟩
      | delete => exact ⟨.first, rfl⟩
      | equal => exact ⟨.first, rfl⟩
    have hside : x ∈ side s (c.diffs strat a1 a2) :=
      List.mem_flatMap.mpr ⟨d, List.mem_filter.mpr ⟨hd, hs⟩, hx⟩
    rw [side_diffs] at hside
    exact isHex_encodeToString hside
  intro x hx
  obtain ⟨⟨d, b⟩, hd, hx⟩ := List.mem_flatMap.mp hx
  have hmem : d ∈ (marked strat c.coins 0 (c.diffs strat a1 a2)).map Prod.fst :=
    List.mem_map_of_mem (List.mem_of_mem_filter hd)
  rw [map_fst_marked] at hmem
  exact hdiff d hmem x hx

theorem length_origins : (origins (c.spans strat a1 a2)).length = (c.buffer strat a1 a2).length :=
  origins_length _ _

/-- With a coin that always comes up, the two strategies keep one list of the script. -/
theorem mergeInputs_reproduces (hcoins : ∀ k, c.coins k = true) (h : Reproduces strat) :
    mergeInputs c strat a1 a2 = a2 := by
  rcases h with ⟨hleft, hright, hdelete, hinsert⟩ | ⟨hleft, hinsert, hdelete⟩
  · have hkept : c.buffer strat a1 a2 = side .first (c.diffs strat a1 a2) := by
      refine kept_marked fun k o => ?_
      cases o with
      | insert => simp [written, hinsert, Operation.on]
      | delete => simp [written, hdelete, hcoins, Operation.on]
      | equal => rfl
    have hparent : parents strat c.draw a1 a2 .first = a2 := by
      rw [parents, if_neg (by simpa using hleft), if_pos (by simpa using hright)]
    rw [mergeInputs, hkept, side_diffs, hparent, decodeString_encodeToString]
  · have hkept : c.buffer strat a1 a2 = side .second (c.diffs strat a1 a2) := by
      refine kept_marked fun k o => ?_
      cases o with
      | insert => simp [written, hinsert, hcoins, Operation.on]
      | delete => simp [written, hdelete, Operation.on]
      | equal => rfl
    have hparent : parents strat c.draw a1 a2 .second = a2 := by
      rw [parents, if_pos (by simpa using hleft)]
    rw [mergeInputs, hkept, side_diffs, hparent, decodeString_encodeToString]

/-- The merge is of whole bytes if and only if the texts that are written are aligned: one that
starts at an even offset starts at an even digit of a parent, unless it is a single digit; one that
starts at an odd offset starts at an odd digit of a parent, where the last one written stops; and
their number of digits is even. -/
theorem mergesWhole_iff (c : Chances) (strat : UInt8) (a1 a2 : Bytes) :
    MergesWhole c strat a1 a2 ↔ Aligned 0 (fun _ => none) (c.spans strat a1 a2) := by
  have hpaired : Paired none (origins (c.spans strat a1 a2)) ↔
      Aligned 0 (fun _ => none) (c.spans strat a1 a2) := paired_iff_aligned _ _
  rw [← hpaired, paired_iff, length_origins]
  constructor
  · intro h
    refine ⟨h.even, fun k x y hx hy => ?_⟩
    have hk : k < (mergeInputs c strat a1 a2).length := by
      have hlt : 2 * k + 1 < (origins (c.spans strat a1 a2)).length :=
        (List.getElem?_eq_some_iff.mp hy).1
      rw [length_origins] at hlt
      have := h.length
      omega
    obtain ⟨s, j, hfrom⟩ := h.whole k hk
    obtain ⟨x', hx', hxs⟩ := hfrom.high
    obtain ⟨y', hy', hys⟩ := hfrom.low
    obtain rfl := Option.some.inj (hx.symm.trans hx')
    obtain rfl := Option.some.inj (hy.symm.trans hy')
    exact ⟨s, 2 * j, by omega, hxs, hys⟩
  · rintro ⟨heven, hpairs⟩
    obtain ⟨hnone, hlength, hget⟩ := decodeString_pairs (isHex_buffer (c := c)) heven
    refine ⟨heven, hnone, fun k hk => ?_, hlength, mergeInputs_reproduces⟩
    rw [mergeInputs, hlength, ← length_origins] at hk
    have hx := List.getElem?_eq_getElem
      (show 2 * k < (origins (c.spans strat a1 a2)).length by omega)
    have hy := List.getElem?_eq_getElem
      (show 2 * k + 1 < (origins (c.spans strat a1 a2)).length by omega)
    obtain ⟨s, p, hp, hxs, hys⟩ := hpairs k _ _ hx hy
    obtain ⟨j, rfl⟩ : ∃ j, p = 2 * j := ⟨p / 2, by omega⟩
    have hhigh := buffer_getElem? hx hxs
    have hlow := buffer_getElem? hy hys
    obtain ⟨hencHigh, hencLow⟩ := getElem?_encodeToString (parents strat c.draw a1 a2 s) j
    rw [hencHigh] at hhigh
    rw [hencLow] at hlow
    obtain ⟨b, hb⟩ : ∃ b, (parents strat c.draw a1 a2 s)[j]? = some b := by
      rw [← Option.isSome_iff_exists]
      by_contra hnot
      rw [Option.not_isSome_iff_eq_none] at hnot
      rw [hnot, Option.map_none, List.getElem?_eq_none_iff] at hhigh
      rw [← length_origins] at hhigh
      omega
    rw [hb, Option.map_some] at hhigh hlow
    exact ⟨s, j, ⟨b, hget k b hhigh hlow, hb⟩, ⟨_, hx, hxs⟩, ⟨_, hy, hys⟩⟩

/-- The number of elements that two texts start with in common. -/
def commonPrefix : List Char → List Char → ℕ
  | x :: xs, y :: ys => if x = y then commonPrefix xs ys + 1 else 0
  | _, _ => 0

theorem take_commonPrefix (x y : List Char) :
    x.take (commonPrefix x y) ++ y.drop (commonPrefix x y) = y := by
  induction x, y using commonPrefix.induct with
  | case1 x xs ys ih => rw [commonPrefix, if_pos rfl, List.take_succ_cons, List.drop_succ_cons,
      List.cons_append, ih]
  | case2 x xs y ys hne => rw [commonPrefix, if_neg hne, List.take_zero, List.drop_zero,
      List.nil_append]
  | case3 x y h => rw [commonPrefix, List.take_zero, List.drop_zero, List.nil_append]; exact h

/-- A comparison that looks for a common start only, and the coin that always comes up. -/
def byPrefix : Chances where
  diffMain x y := [⟨.equal, x.take (commonPrefix x y)⟩, ⟨.delete, x.drop (commonPrefix x y)⟩,
    ⟨.insert, y.drop (commonPrefix x y)⟩]
  contract x y := by
    constructor
    · simp [side, Operation.on]
    · simpa [side, Operation.on] using take_commonPrefix x y
  coins _ := true
  draw := 0

/-- Two bytes that share a digit, and a strategy that writes no difference. -/
theorem not_mergesWhole_digit : ¬MergesWhole byPrefix 0 [0x12] [0x13] := fun h =>
  absurd h.even (by decide)

end Child

end Fluffi.Oedipus
