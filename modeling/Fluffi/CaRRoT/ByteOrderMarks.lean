import Fluffi.CaRRoT.Ring

/-! The search for byte order marks. The first four bytes go to a buffer of their own, the others
through a ring; at the end four zero bytes are pushed, so that the last marks are seen whole. The
position that is reported is the position of the last byte, less the length of the window. -/

namespace Fluffi.CaRRoT

open Fluffi.Shared

structure MagiVal where
  type : String
  pos : ℕ
  len : ℕ
  deriving DecidableEq

def containsMagic (buf magic : Bytes) : Bool :=
  if buf.length ≥ magic.length then buf.take magic.length == magic else false

/-- The marks of `compareHelper`. -/
def byteOrderMarks : List Bytes :=
  [[0xef, 0xbb, 0xbf], [0xfe, 0xff], [0xff, 0xfe], [0xf7, 0x64, 0x4c], [0x0e, 0xfe, 0xff],
    [0xfb, 0xee, 0x28], [0xdd, 0x73, 0x66, 0x73], [0x00, 0x00, 0xfe, 0xff],
    [0xff, 0xfe, 0x00, 0x00], [0x2b, 0x2f, 0x76, 0x38], [0x2b, 0x2f, 0x76, 0x39],
    [0x2b, 0x2f, 0x76, 0x2b], [0x2b, 0x2f, 0x76, 0x2f], [0x84, 0x31, 0x95, 0x33]]

def compareHelper (buf : Bytes) : Bool := byteOrderMarks.any (containsMagic buf)

/-- The difference of two positions of 64 bits. -/
def sub64 (a b : ℕ) : ℕ := if b ≤ a then a - b else a + 2 ^ 64 - b

structure BomDigester where
  pos : ℕ
  buf : Bytes
  headDone : Bool
  rb : Ring
  found : List MagiVal

namespace BomDigester

def start : BomDigester := ⟨0, [0, 0, 0, 0], false, Ring.zeros 4, []⟩

/-- A mark in the window is reported four bytes before the current position. -/
def look (d : BomDigester) : List MagiVal :=
  if compareHelper d.rb.window then d.found ++ [⟨"BOM", sub64 d.pos 4, 4⟩] else d.found

def read (d : BomDigester) (b : UInt8) : BomDigester :=
  let d := { d with rb := d.rb.push b }
  let d :=
    if !d.headDone then
      if d.pos < d.buf.length then { d with buf := d.buf.set d.pos b }
      else
        { d with
          found := if compareHelper d.buf then d.found ++ [⟨"BOM", 0, 4⟩] else d.found
          headDone := true }
    else { d with found := d.look }
  { d with pos := d.pos + 1 }

/-- One of the zero bytes behind the end. -/
def pad (d : BomDigester) : BomDigester :=
  let d := { d with rb := d.rb.push 0x00 }
  { d with found := d.look, pos := d.pos + 1 }

end BomDigester

def bomdigester (contents : Bytes) : List MagiVal :=
  ((List.range 4).foldl (fun d _ => d.pad) (contents.foldl BomDigester.read .start)).found

/-! ### Marks -/

/-- One of the marks starts at `p`. -/
def MarkAt (contents : Bytes) (p : ℕ) : Prop := ∃ magic ∈ byteOrderMarks, magic <+: contents.drop p

theorem containsMagic_iff {buf magic : Bytes} : containsMagic buf magic = true ↔ magic <+: buf := by
  rw [containsMagic]
  split
  · rw [beq_iff_eq, List.prefix_iff_eq_take, eq_comm]
  · rename_i hlen
    exact ⟨fun h => absurd h Bool.false_ne_true, fun h => absurd h.length_le hlen⟩

theorem compareHelper_iff {buf : Bytes} :
    compareHelper buf = true ↔ ∃ magic ∈ byteOrderMarks, magic <+: buf := by
  rw [compareHelper, List.any_eq_true]
  simp only [containsMagic_iff]

theorem markAt_iff {contents : Bytes} {p : ℕ} :
    MarkAt contents p ↔ compareHelper (contents.drop p) = true := compareHelper_iff.symm

instance (contents : Bytes) : DecidablePred (MarkAt contents) := fun _ =>
  decidable_of_iff _ markAt_iff.symm

theorem length_of_mem {magic : Bytes} (h : magic ∈ byteOrderMarks) :
    0 < magic.length ∧ magic.length ≤ 4 := by
  revert magic
  decide

theorem MarkAt.lt_length {contents : Bytes} {p : ℕ} (h : MarkAt contents p) :
    p < contents.length := by
  obtain ⟨magic, hmem, hmagic⟩ := h
  have hlen := hmagic.length_le
  rw [List.length_drop] at hlen
  have := (length_of_mem hmem).1
  omega

/-- Only the first four bytes matter. -/
theorem compareHelper_take (buf : Bytes) : compareHelper (buf.take 4) = compareHelper buf := by
  rw [Bool.eq_iff_iff, compareHelper_iff, compareHelper_iff]
  refine exists_congr fun magic => and_congr_right fun hmem => ?_
  rw [List.prefix_take_iff, and_iff_left (length_of_mem hmem).2]

/-- Zero bytes behind the end make no mark. -/
theorem compareHelper_append_zeros (buf : Bytes) :
    compareHelper (buf ++ [0, 0, 0, 0]) = compareHelper buf := by
  match buf with
  | [] => rfl
  | [a] => simp [compareHelper, byteOrderMarks, containsMagic]
  | [a, b] => simp [compareHelper, byteOrderMarks, containsMagic]
  | [a, b, c] =>
    -- the two marks that start with the same bytes
    simp only [compareHelper, byteOrderMarks, containsMagic, List.any_cons, List.any_nil]
    simp
    cases a == 255 <;> cases b == 254 <;> simp
  | a :: b :: c :: d :: buf =>
    rw [← compareHelper_take, ← compareHelper_take (a :: b :: c :: d :: buf)]
    rfl

/-- There is none between zero bytes either. -/
theorem compareHelper_zeros (a b : UInt8) : compareHelper [0, a, b, 0] = false := by
  simp [compareHelper, byteOrderMarks, containsMagic]

/-! ### The window -/

/-- What the window shows after `m` bytes, those behind the end included. -/
def windowAt (contents : Bytes) (m : ℕ) : Bytes :=
  (([0, 0, 0, 0] ++ (contents ++ [0, 0, 0, 0])).drop m).take 4

section Window

variable {contents : Bytes} {m : ℕ}

theorem windowAt_length (hm : m ≤ contents.length + 4) : (windowAt contents m).length = 4 := by
  rw [windowAt, List.length_take, List.length_drop]
  simp only [List.length_append, List.length_cons, List.length_nil]
  omega

theorem windowAt_succ {b : UInt8} (hb : (contents ++ [0, 0, 0, 0])[m]? = some b) :
    (windowAt contents m).drop 1 ++ [b] = windowAt contents (m + 1) := by
  have hlast : (([0, 0, 0, 0] ++ (contents ++ [0, 0, 0, 0])).drop (m + 1))[3]? = some b := by
    rw [List.getElem?_drop, show m + 1 + 3 = ([0, 0, 0, 0] : Bytes).length + m by
      simp only [List.length_cons, List.length_nil]; omega,
      List.getElem?_append_right (Nat.le_add_right _ _), Nat.add_sub_cancel_left, hb]
  have hdrop : ((([0, 0, 0, 0] ++ (contents ++ [0, 0, 0, 0])).drop m).take 4).drop 1 =
      (([0, 0, 0, 0] ++ (contents ++ [0, 0, 0, 0])).drop (m + 1)).take 3 := by
    rw [List.drop_take, List.drop_drop]
  have htake := @List.take_add_one _ (([0, 0, 0, 0] ++ (contents ++ [0, 0, 0, 0])).drop (m + 1)) 3
  rw [hlast] at htake
  rw [windowAt, windowAt, hdrop, htake]
  rfl

/-- Four bytes later the window shows what starts at a position. -/
theorem compareHelper_windowAt (p : ℕ) (hp : p ≤ contents.length) :
    compareHelper (windowAt contents (p + 4)) = true ↔ MarkAt contents p := by
  have hdrop : ([0, 0, 0, 0] ++ (contents ++ [0, 0, 0, 0])).drop (p + 4) =
      contents.drop p ++ [0, 0, 0, 0] := by
    rw [List.drop_append, List.drop_of_length_le (by simp), List.nil_append,
      show p + 4 - ([0, 0, 0, 0] : Bytes).length = p by simp, List.drop_append_of_le_length hp]
  rw [windowAt, hdrop, compareHelper_take, compareHelper_append_zeros, markAt_iff]

/-- The zero bytes that the ring starts with make no mark. -/
theorem compareHelper_windowAt_small (hm : contents.length < m) (hm' : m < 4) :
    compareHelper (windowAt contents m) = false := by
  match contents, hm with
  | [], hm =>
    have hm : m = 1 ∨ m = 2 ∨ m = 3 := by
      simp only [List.length_nil] at hm
      omega
    rcases hm with rfl | rfl | rfl
    · exact compareHelper_zeros 0 0
    · exact compareHelper_zeros 0 0
    · exact compareHelper_zeros 0 0
  | [a], hm =>
    have hm : m = 2 ∨ m = 3 := by
      simp only [List.length_cons, List.length_nil] at hm
      omega
    rcases hm with rfl | rfl
    · exact compareHelper_zeros 0 a
    · exact compareHelper_zeros a 0
  | [a, b], hm =>
    have hm : m = 3 := by
      simp only [List.length_cons, List.length_nil] at hm
      omega
    subst hm
    exact compareHelper_zeros a b
  | a :: b :: c :: contents, hm =>
    simp only [List.length_cons] at hm
    omega

end Window

/-! ### The digester -/

namespace BomDigester

variable {contents : Bytes} {k : ℕ} {d : BomDigester}

/-- Where the digester is when it has read `k` bytes. -/
structure At (contents : Bytes) (k : ℕ) (d : BomDigester) : Prop where
  pos : d.pos = k
  buf : d.buf = (contents.take k ++ [0, 0, 0, 0]).take 4
  headDone : d.headDone = decide (5 ≤ k)
  rb : d.rb.Shows (windowAt contents k)
  found : ∀ e, e ∈ d.found ↔
    (5 ≤ k ∧ MarkAt contents 0 ∧ e = ⟨"BOM", 0, 4⟩) ∨
      ∃ q, 2 ≤ q ∧ q + 4 ≤ k ∧ MarkAt contents q ∧ e = ⟨"BOM", q - 1, 4⟩

theorem mem_look {e : MagiVal} :
    e ∈ d.look ↔
      e ∈ d.found ∨ compareHelper d.rb.window = true ∧ e = ⟨"BOM", sub64 d.pos 4, 4⟩ := by
  rw [look]
  split
  · rename_i h
    rw [List.mem_append, List.mem_singleton]
    simp only [h, true_and]
  · rename_i h
    rw [or_iff_left fun h' => h h'.1]

theorem shows_push {b : UInt8} (hb : (contents ++ [0, 0, 0, 0])[k]? = some b)
    (h : d.rb.Shows (windowAt contents k)) :
    (d.rb.push b).Shows (windowAt contents (k + 1)) := by
  have hk : k < (contents ++ [0, 0, 0, 0]).length := (List.getElem?_eq_some_iff.mp hb).1
  simp only [List.length_append, List.length_cons, List.length_nil] at hk
  rw [← windowAt_succ hb]
  exact h.push b (by rw [windowAt_length (by omega)]; omega)

theorem buf_set {b : UInt8} (hk : k < 4) (hb : contents[k]? = some b) :
    ((contents.take k ++ [0, 0, 0, 0]).take 4).set k b =
      (contents.take (k + 1) ++ [0, 0, 0, 0]).take 4 := by
  obtain ⟨hlt, rfl⟩ := List.getElem?_eq_some_iff.mp hb
  have hlen : (contents.take k).length = k := List.length_take_of_le hlt.le
  have htake : contents.take (k + 1) = contents.take k ++ [contents[k]] := by
    rw [List.take_add_one, hb, Option.toList_some]
  rw [htake, List.append_assoc, List.take_append, List.take_append, hlen,
    List.set_append_right _ _ (by rw [List.length_take, hlen]; omega), List.length_take, hlen,
    show k - min 4 k = 0 by omega]
  congr 1
  rcases (show k = 0 ∨ k = 1 ∨ k = 2 ∨ k = 3 by omega) with rfl | rfl | rfl | rfl <;> rfl

theorem getElem?_append_zeros {b : UInt8} (hb : contents[k]? = some b) :
    (contents ++ [0, 0, 0, 0])[k]? = some b := by
  rw [List.getElem?_append_left (List.getElem?_eq_some_iff.mp hb).1, hb]

/-- The bytes of the head: up to the fifth one nothing is reported. -/
theorem At.read_head (h : d.At contents k) {b : UInt8} (hb : contents[k]? = some b)
    (hk : k < 4) : (d.read b).At contents (k + 1) := by
  have hlen : d.buf.length = 4 := by
    rw [h.buf, List.length_take, List.length_append]
    simp only [List.length_cons, List.length_nil]
    omega
  have hhead : d.headDone = false := by rw [h.headDone, decide_eq_false (by omega)]
  have hread : d.read b =
      { d with rb := d.rb.push b, buf := d.buf.set d.pos b, pos := d.pos + 1 } := by
    simp only [read, hhead, Bool.not_false, if_true, h.pos, hlen, if_pos hk]
  rw [hread]
  refine ⟨by rw [h.pos], ?_, ?_, shows_push (getElem?_append_zeros hb) h.rb, fun e => ?_⟩
  · rw [h.pos, h.buf, buf_set hk hb]
  · rw [hhead, decide_eq_false (by omega)]
  · rw [h.found]
    constructor
    · rintro (⟨hk', -⟩ | ⟨q, hq, hq', -⟩) <;> omega
    · rintro (⟨hk', -⟩ | ⟨q, hq, hq', -⟩) <;> omega

/-- The fifth byte: the head is searched, and not the window. -/
theorem At.read_fifth (h : d.At contents 4) {b : UInt8} (hb : contents[4]? = some b) :
    (d.read b).At contents 5 := by
  have hlen : d.buf.length = 4 := by
    rw [h.buf, List.length_take, List.length_append]
    simp only [List.length_cons, List.length_nil]
    omega
  have hhead : d.headDone = false := by rw [h.headDone, decide_eq_false (by omega)]
  have hfull : 4 ≤ contents.length := (List.getElem?_eq_some_iff.mp hb).1.le
  have hbuf : d.buf = contents.take 4 := by
    rw [h.buf, List.take_append_of_le_length (by rw [List.length_take]; omega), List.take_take,
      Nat.min_self]
  have hmark : compareHelper d.buf = true ↔ MarkAt contents 0 := by
    rw [hbuf, compareHelper_take, markAt_iff, List.drop_zero]
  have hread : d.read b =
      { d with
        rb := d.rb.push b
        found := if compareHelper d.buf then d.found ++ [⟨"BOM", 0, 4⟩] else d.found
        headDone := true, pos := d.pos + 1 } := by
    simp only [read, hhead, Bool.not_false, if_true, h.pos, hlen, if_neg (lt_irrefl 4)]
  have hfound : ∀ e, e ∉ d.found := by
    intro e he
    rcases (h.found e).mp he with ⟨hk', -⟩ | ⟨q, hq, hq', -⟩ <;> omega
  rw [hread]
  refine ⟨by rw [h.pos], ?_, rfl, shows_push (getElem?_append_zeros hb) h.rb, fun e => ?_⟩
  · rw [hbuf, List.take_append_of_le_length (by
      rw [List.length_take_of_le (List.getElem?_eq_some_iff.mp hb).1]; omega),
      List.take_take, show min 4 5 = 4 from rfl]
  · have hnone : ¬∃ q, 2 ≤ q ∧ q + 4 ≤ 5 ∧ MarkAt contents q ∧ e = ⟨"BOM", q - 1, 4⟩ := by
      rintro ⟨q, hq, hq', -⟩
      omega
    rw [or_iff_left hnone, ← hmark]
    by_cases hc : compareHelper d.buf = true
    · rw [if_pos hc, List.mem_append, List.mem_singleton, or_iff_right (hfound e)]
      exact ⟨fun he => ⟨le_rfl, hc, he⟩, fun he => he.2.2⟩
    · rw [if_neg hc]
      exact ⟨fun he => absurd he (hfound e), fun he => absurd he.2.1 hc⟩

/-- Behind the head: what the window shows is reported one byte before it starts. -/
theorem At.read_window (h : d.At contents k) {b : UInt8} (hb : contents[k]? = some b)
    (hk : 5 ≤ k) : (d.read b).At contents (k + 1) := by
  have hhead : d.headDone = true := by rw [h.headDone, decide_eq_true hk]
  have hlt := (List.getElem?_eq_some_iff.mp hb).1
  have hshows := shows_push (getElem?_append_zeros hb) h.rb
  have hread : d.read b =
      { d with
        rb := d.rb.push b, found := { d with rb := d.rb.push b }.look, pos := d.pos + 1 } := by
    simp only [read, hhead, Bool.not_true, Bool.false_eq_true, if_false]
  obtain ⟨q, rfl⟩ := Nat.exists_eq_add_of_le (show 3 ≤ k by omega)
  have hmark : compareHelper (d.rb.push b).window = true ↔ MarkAt contents q := by
    rw [hshows.window_eq, show 3 + q + 1 = q + 4 by omega, compareHelper_windowAt q (by omega)]
  rw [hread]
  refine ⟨by rw [h.pos], ?_, ?_, hshows, fun e => ?_⟩
  · change d.buf = _
    rw [h.buf, List.take_append_of_le_length (by rw [List.length_take]; omega),
      List.take_append_of_le_length (by rw [List.length_take]; omega), List.take_take,
      List.take_take, Nat.min_eq_left (by omega), Nat.min_eq_left (by omega)]
  · change d.headDone = _
    rw [hhead, decide_eq_true (by omega)]
  · have hpos : sub64 d.pos 4 = q - 1 := by
      rw [h.pos, sub64, if_pos (by omega)]
      omega
    change e ∈ ({ d with rb := d.rb.push b } : BomDigester).look ↔ _
    rw [mem_look, hmark, hpos, h.found, or_assoc]
    refine or_congr ⟨fun he => ⟨by omega, he.2⟩, fun he => ⟨by omega, he.2⟩⟩ ?_
    constructor
    · rintro (⟨q', hq, hq', hmark', he⟩ | ⟨hmark', he⟩)
      · exact ⟨q', hq, by omega, hmark', he⟩
      · exact ⟨q, by omega, by omega, hmark', he⟩
    · rintro ⟨q', hq, hq', hmark', he⟩
      by_cases hqq : q' = q
      · subst hqq
        exact .inr ⟨hmark', he⟩
      · exact .inl ⟨q', hq, by omega, hmark', he⟩

theorem At.read (h : d.At contents k) {b : UInt8} (hb : contents[k]? = some b) :
    (d.read b).At contents (k + 1) := by
  rcases Nat.lt_or_ge k 4 with hk | hk
  · exact h.read_head hb hk
  · rcases hk.lt_or_eq with hk | rfl
    · exact h.read_window hb hk
    · exact h.read_fifth hb

theorem at_start : start.At contents 0 where
  pos := rfl
  buf := rfl
  headDone := rfl
  rb := by
    have hwindow : windowAt contents 0 = List.replicate 4 0x00 := rfl
    rw [hwindow]
    exact Ring.zeros_shows (by decide) (by decide)
  found e := by
    refine ⟨fun he => absurd he List.not_mem_nil, ?_⟩
    rintro (⟨hk', -⟩ | ⟨q, hq, hq', -⟩) <;> omega

theorem at_take (hk : k ≤ contents.length) :
    ((contents.take k).foldl BomDigester.read start).At contents k := by
  induction k with
  | zero => exact at_start
  | succ k ih =>
    have hb := List.getElem?_eq_getElem (l := contents) (i := k) (by omega)
    rw [List.take_add_one, hb, Option.toList_some, List.foldl_append]
    exact (ih (by omega)).read hb

/-- Where the digester is behind the end, after `j` zero bytes. -/
structure Behind (contents : Bytes) (found : List MagiVal) (j : ℕ) (d : BomDigester) : Prop where
  pos : d.pos = contents.length + j
  rb : d.rb.Shows (windowAt contents (contents.length + j))
  found : ∀ e, e ∈ d.found ↔ e ∈ found ∨ ∃ i < j,
    compareHelper (windowAt contents (contents.length + i + 1)) = true ∧
      e = ⟨"BOM", sub64 (contents.length + i) 4, 4⟩

theorem Behind.pad {found : List MagiVal} {j : ℕ} (h : Behind contents found j d) (hj : j < 4) :
    Behind contents found (j + 1) d.pad := by
  have hzero : (contents ++ [0, 0, 0, 0])[contents.length + j]? = some 0x00 := by
    rw [List.getElem?_append_right (Nat.le_add_right _ _), Nat.add_sub_cancel_left]
    rcases (show j = 0 ∨ j = 1 ∨ j = 2 ∨ j = 3 by omega) with rfl | rfl | rfl | rfl <;> rfl
  have hshows := shows_push hzero h.rb
  refine ⟨?_, hshows, fun e => ?_⟩
  · change d.pos + 1 = _
    rw [h.pos, Nat.add_assoc]
  · change e ∈ ({ d with rb := d.rb.push 0x00 } : BomDigester).look ↔ _
    rw [mem_look, h.found, or_assoc]
    refine or_congr_right ?_
    change _ ∨ compareHelper (d.rb.push 0x00).window = true ∧ e = ⟨"BOM", sub64 d.pos 4, 4⟩ ↔ _
    rw [hshows.window_eq, h.pos]
    constructor
    · rintro (⟨i, hi, he⟩ | he)
      · exact ⟨i, by omega, he⟩
      · exact ⟨j, by omega, he⟩
    · rintro ⟨i, hi, he⟩
      rcases (Nat.lt_succ_iff.mp hi).lt_or_eq with hlt | rfl
      · exact .inl ⟨i, hlt, he⟩
      · exact .inr he

end BomDigester

/-! ### What is reported -/

/-- The first offset at which a window is searched. -/
def firstSeen (n : ℕ) : ℕ := if 5 ≤ n then 2 else if n = 4 then 1 else 0

theorem sub64_add_three (q : ℕ) : sub64 (q + 3) 4 = sub64 q 1 := by
  rw [sub64, sub64]
  split <;> split <;> omega

/-- From the first offset that is searched on, each mark is reported one byte before it starts. -/
theorem mem_bomdigester {contents : Bytes} {e : MagiVal} :
    e ∈ bomdigester contents ↔
      (5 ≤ contents.length ∧ MarkAt contents 0 ∧ e = ⟨"BOM", 0, 4⟩) ∨
        ∃ q, firstSeen contents.length ≤ q ∧ MarkAt contents q ∧ e = ⟨"BOM", sub64 q 1, 4⟩ := by
  have hat := @BomDigester.at_take contents _ le_rfl
  rw [List.take_length] at hat
  have hbehind : BomDigester.Behind contents (contents.foldl BomDigester.read .start).found 0
      (contents.foldl BomDigester.read .start) := by
    refine ⟨hat.pos, hat.rb, fun e => ⟨.inl, ?_⟩⟩
    rintro (he | ⟨i, hi, -⟩)
    · exact he
    · omega
  have hfound := ((((hbehind.pad (by omega)).pad (by omega)).pad (by omega)).pad (by omega)).found e
  change e ∈ (((((contents.foldl BomDigester.read .start).pad).pad).pad).pad).found ↔ _
  rw [hfound, hat.found, or_assoc]
  refine or_congr_right ?_
  constructor
  · rintro (⟨q, hq, hq', hmark, he⟩ | ⟨i, hi, hcompare, he⟩)
    · refine ⟨q, ?_, hmark, ?_⟩
      · rw [firstSeen, if_pos (by omega)]
        exact hq
      · rw [sub64, if_pos (by omega)]
        exact he
    · rcases Nat.lt_or_ge (contents.length + i + 1) 4 with hsmall | hlarge
      · rw [compareHelper_windowAt_small (by omega) hsmall] at hcompare
        cases hcompare
      · obtain ⟨q, hq⟩ := Nat.exists_eq_add_of_le' (show 3 ≤ contents.length + i by omega)
        rw [hq] at hcompare he
        rw [compareHelper_windowAt q (by omega)] at hcompare
        refine ⟨q, ?_, hcompare, by rw [he, sub64_add_three]⟩
        rw [firstSeen]
        split
        · omega
        · split <;> omega
  · rintro ⟨q, hq, hmark, he⟩
    have hlt := hmark.lt_length
    rw [firstSeen] at hq
    by_cases hmain : 2 ≤ q ∧ q + 4 ≤ contents.length
    · refine .inl ⟨q, hmain.1, hmain.2, hmark, ?_⟩
      rw [he, sub64, if_pos (by omega)]
    · have hle : contents.length ≤ q + 3 := by
        split at hq
        · omega
        · split at hq <;> omega
      obtain ⟨i, hi⟩ := Nat.exists_eq_add_of_le hle
      refine .inr ⟨i, by omega, ?_, ?_⟩
      · rw [show contents.length + i + 1 = q + 4 by omega, compareHelper_windowAt q hlt.le]
        exact hmark
      · rw [← hi, sub64_add_three, he]

theorem exists_last {contents : Bytes} {p : ℕ} (hmark : MarkAt contents p) :
    ∃ q, p ≤ q ∧ MarkAt contents q ∧ ∀ q', MarkAt contents q' → q' ≤ q :=
  ⟨Nat.findGreatest (MarkAt contents) contents.length,
    Nat.le_findGreatest hmark.lt_length.le hmark,
    Nat.findGreatest_spec hmark.lt_length.le hmark,
    fun _ hmark' => Nat.le_findGreatest hmark'.lt_length.le hmark'⟩

/-- Every report is the position of a mark in the file, and every mark is reported. -/
def LocatesMarks (contents : Bytes) : Prop :=
  (∀ e ∈ bomdigester contents, e.pos < contents.length ∧ MarkAt contents e.pos) ∧
    ∀ p, MarkAt contents p → ∃ e ∈ bomdigester contents, e.pos = p

/-- The last mark of the file is not reported, unless it is at the start of a file of at least
five bytes. -/
theorem pos_ne_of_last {contents : Bytes} {p : ℕ} (hmark : MarkAt contents p)
    (hlast : ∀ q, MarkAt contents q → q ≤ p) (hhead : 5 ≤ contents.length → p ≠ 0)
    {e : MagiVal} (he : e ∈ bomdigester contents) : e.pos ≠ p := by
  rcases mem_bomdigester.mp he with ⟨hlen, -, rfl⟩ | ⟨q, hq, hmarkq, rfl⟩
  · exact (hhead hlen).symm
  · have hle := hlast q hmarkq
    have hlt := hmark.lt_length
    intro hpos
    change sub64 q 1 = p at hpos
    rw [sub64] at hpos
    rw [firstSeen] at hq
    split at hpos
    · omega
    · -- the position has wrapped around: the file has at most three bytes
      split at hq
      · omega
      · split at hq <;> omega

/-- The marks are located only where there is none but the one that starts the file, and the file
has more than four bytes then. -/
theorem locatesMarks_iff (contents : Bytes) :
    LocatesMarks contents ↔
      (∀ p, 1 ≤ p → ¬MarkAt contents p) ∧ (MarkAt contents 0 → 5 ≤ contents.length) := by
  constructor
  · rintro ⟨-, hall⟩
    by_contra hnot
    have hex : ∃ p, MarkAt contents p ∧ (5 ≤ contents.length → p ≠ 0) := by
      by_contra hnone
      refine hnot ⟨fun p hp hmark => hnone ⟨p, hmark, fun _ => by omega⟩, fun hmark => ?_⟩
      by_contra hlen
      exact hnone ⟨0, hmark, fun hlen' => absurd hlen' hlen⟩
    obtain ⟨p₀, hmark₀, hhead₀⟩ := hex
    obtain ⟨p, hp₀, hmark, hlast⟩ := exists_last hmark₀
    obtain ⟨e, he, hpos⟩ := hall p hmark
    exact pos_ne_of_last hmark hlast (fun hlen => by have := hhead₀ hlen; omega) he hpos
  · rintro ⟨hnone, hhead⟩
    have hzero : ∀ p, MarkAt contents p → p = 0 := by
      intro p hmark
      by_contra hp
      exact hnone p (by omega) hmark
    refine ⟨fun e he => ?_, fun p hmark => ?_⟩
    · rcases mem_bomdigester.mp he with ⟨hlen, hmark, rfl⟩ | ⟨q, hq, hmark, -⟩
      · exact ⟨hmark.lt_length, hmark⟩
      · have hlen := hhead (hzero q hmark ▸ hmark)
        rw [firstSeen, if_pos hlen, hzero q hmark] at hq
        omega
    · have hp := hzero p hmark
      subst hp
      exact ⟨_, mem_bomdigester.mpr (.inl ⟨hhead hmark, hmark, rfl⟩), rfl⟩

/-- The mark of UTF-8 behind two letters. -/
theorem not_locatesMarks_letters : ¬LocatesMarks [0x41, 0x42, 0xef, 0xbb, 0xbf, 0x43] := by
  rintro ⟨hreports, -⟩
  have he : (⟨"BOM", 1, 4⟩ : MagiVal) ∈ bomdigester [0x41, 0x42, 0xef, 0xbb, 0xbf, 0x43] :=
    mem_bomdigester.mpr (.inr ⟨2, by decide, markAt_iff.mpr (by decide), by decide⟩)
  exact absurd (markAt_iff.mp (hreports _ he).2) (by decide)

end Fluffi.CaRRoT
