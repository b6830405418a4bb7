import Fluffi.CaRRoT.Mutate

/-! The parts of a mutated file. A new string stands between what stood around the old one, and the
fields that are changed stand in front of it. -/

namespace Fluffi.CaRRoT

open Fluffi.Systems Fluffi.Systems.Slices Fluffi.Shared

/-! ### The bytes that are filled in -/

section Fill

variable {content file : Bytes} {t : Text} {length : ℕ} {draw : ℕ → ℕ → ℕ}

theorem fillCtrl_length : (fillCtrl t draw).length = t.len := by
  rw [fillCtrl, List.length_map, List.length_range]

theorem fillInvalid_length : (fillInvalid t draw).length = t.len := by
  rw [fillInvalid]
  split <;> rw [List.length_map, List.length_range]

theorem fillStart_length (hinside : t.pos + t.len ≤ content.length) (hlen : t.len ≤ length) :
    ∃ b, fillStart content t length = some b ∧ b.length = length := by
  obtain ⟨b, hb, hlength⟩ := @copyTo_length UInt8 (List.replicate length 0x00)
    ((content.drop t.pos).take t.len) 0 t.len (Nat.zero_le _)
    (by rw [List.length_replicate]; exact hlen)
  exact ⟨b, by rw [fillStart, slice_eq hinside, Option.bind_some, hb],
    hlength.trans List.length_replicate⟩

theorem put_length {b : Bytes} {i : ℕ} {xs : Bytes} (h : i + xs.length ≤ b.length) :
    ∃ b', put b i xs = some b' ∧ b'.length = b.length := by
  obtain ⟨b', hb', hlength, -⟩ := put_spec h
  exact ⟨b', hb', hlength⟩

theorem fillUtf8_length {i : ℕ} {b : Bytes} (hb : b.length = length) :
    ∃ b', fillUtf8 length draw i b = some b' ∧ b'.length = length := by
  induction hk : length - i using Nat.strong_induction_on generalizing i b with
  | _ k ih =>
    rw [fillUtf8]
    by_cases hi : i < length
    · rw [if_pos hi]
      obtain ⟨hpos, hle⟩ := utf8Character_length (length - i) (draw i) (by omega)
      obtain ⟨b', hb', hlength⟩ := @put_length b i (utf8Character (length - i) (draw i))
        (by omega)
      rw [hb', Option.bind_some]
      exact ih _ (by omega) (hlength.trans hb) rfl
    · rw [if_neg hi]
      exact ⟨b, rfl, hb⟩

theorem fillString_length (hinside : t.pos + t.len ≤ content.length) (hlen : t.len ≤ length)
    (hpos : 1 ≤ t.len) :
    ∃ bs, fillString content t length draw = some bs ∧ bs.length = length := by
  obtain ⟨b, hb, hlength⟩ := fillStart_length hinside hlen
  rw [fillString, hb, Option.bind_some]
  cases t.enc with
  | ascii =>
    obtain ⟨bs, hbs, hbslength⟩ := @foldlM_length UInt8 b (length - t.len)
      (fun b i => put b i [randomAscii (draw i 0)]) t.len
      (fun b i _ hi => put_length (by rw [List.length_singleton]; omega)) (by omega)
    exact ⟨bs, hbs, hbslength.trans hlength⟩
  | utf8 => exact fillUtf8_length hlength
  | unicode =>
    obtain ⟨bs, hbs, hbslength⟩ := @foldlM_length UInt8 b (length - t.len)
      (fun b i => (byteBefore b i).bind fun last =>
        put b i [if last = 0x00 then randomAscii (draw i 0) else 0x00]) t.len
      (by
        intro b i hle hi
        rw [byteBefore, if_neg (by omega), List.getElem?_eq_getElem (by omega), Option.bind_some]
        exact put_length (by rw [List.length_singleton]; omega)) (by omega)
    exact ⟨bs, hbs, hbslength.trans hlength⟩

end Fill

/-! ### The parts of the file -/

section Parts

variable {content file : Bytes} {t : Text} {d : Draws} {size : ℕ}

theorem shortened_eq {short : ℕ} (hinside : t.pos + t.len ≤ file.length) (hshort : short ≤ t.len) :
    shortened file t short = some (file.take t.pos ++
      ((file.drop t.pos).take short ++ file.drop (t.pos + t.len))) := by
  have hhead : (file.take (t.pos + short)).length = t.pos + short :=
    List.length_take_of_le (by omega)
  have hfill := @fill_two UInt8 (List.replicate (file.length - t.len + short) 0x00)
    (file.take (t.pos + short)) (file.drop (t.pos + t.len))
    (by rw [List.length_replicate, hhead, List.length_drop]; omega)
  rw [hhead] at hfill
  rw [shortened, slice_take (by omega), Option.bind_some, slice_drop hinside, Option.bind_some,
    hfill, List.take_add, List.append_assoc]

theorem replaced_eq {len : ℕ} {bs : Bytes} (hinside : t.pos + t.len ≤ file.length)
    (hsize : size = file.length - t.len + len) (hlen : bs.length = len) :
    replaced file t size len bs =
      some (file.take t.pos ++ (bs ++ file.drop (t.pos + t.len))) := by
  have hhead : (file.take t.pos).length = t.pos := List.length_take_of_le (by omega)
  have hfill := @fill_three UInt8 (List.replicate size 0x00) (file.take t.pos) bs
    (file.drop (t.pos + t.len))
    (by rw [List.length_replicate, hhead, List.length_drop]; omega)
  rw [hhead, hlen] at hfill
  rw [replaced, slice_take (by omega), Option.bind_some, slice_drop hinside, Option.bind_some,
    hfill]

theorem removed_eq (hinside : t.pos + t.len ≤ file.length) :
    removed file t = some (file.take t.pos ++ ([] ++ file.drop (t.pos + t.len))) := by
  have hhead : (file.take t.pos).length = t.pos := List.length_take_of_le (by omega)
  have hfill := @fill_two UInt8 (List.replicate (file.length - t.len) 0x00)
    (file.take t.pos) (file.drop (t.pos + t.len))
    (by rw [List.length_replicate, hhead, List.length_drop]; omega)
  rw [hhead] at hfill
  rw [removed, slice_take (by omega), Option.bind_some, slice_drop hinside, Option.bind_some,
    hfill, List.nil_append]

theorem lengthened_eq {long : ℕ} {draw : ℕ → ℕ → ℕ} (hcontent : t.pos + t.len ≤ content.length)
    (hinside : t.pos + t.len ≤ file.length) (hlong : t.len ≤ long) (hpos : 1 ≤ t.len) :
    ∃ bs, lengthened content file t long draw =
      some (file.take t.pos ++ (bs ++ file.drop (t.pos + t.len))) ∧ bs.length = long := by
  obtain ⟨bs, hbs, hlength⟩ := @fillString_length _ _ _ draw hcontent hlong hpos
  refine ⟨bs, ?_, hlength⟩
  rw [lengthened, hbs, Option.bind_some, replaced_eq hinside (by rw [hlength]) rfl]

/-- Whatever is chosen, the file is in three parts afterwards, and the one in the middle has the
new length. -/
theorem modifyString_eq (hcontent : t.pos + t.len ≤ content.length)
    (hinside : t.pos + t.len ≤ file.length) (hpos : 1 ≤ t.len) :
    ∃ bs newlength, modifyString content file size t d =
        some (file.take t.pos ++ (bs ++ file.drop (t.pos + t.len)), newlength) ∧
      bs.length = newlength := by
  have hran : ran 15 d.string < 15 := ran_lt (by omega)
  have hkept : file = file.take t.pos ++ ((file.drop t.pos).take t.len ++
      file.drop (t.pos + t.len)) := by
    rw [← List.drop_drop, List.take_append_drop, List.take_append_drop]
  have hshorten : ∃ bs newlength,
      (shortened file t (ran t.len d.amount)).map (·, ran t.len d.amount) =
        some (file.take t.pos ++ (bs ++ file.drop (t.pos + t.len)), newlength) ∧
      bs.length = newlength := by
    have hshort : ran t.len d.amount < t.len := ran_lt (by omega)
    refine ⟨_, _, by rw [shortened_eq hinside hshort.le, Option.map_some], ?_⟩
    rw [List.length_take, List.length_drop]
    omega
  have hlengthen : ∀ max, ∃ bs newlength,
      (lengthened content file t (t.len + ran max d.amount) d.fill).map
          (·, t.len + ran max d.amount) =
        some (file.take t.pos ++ (bs ++ file.drop (t.pos + t.len)), newlength) ∧
      bs.length = newlength := by
    intro max
    obtain ⟨bs, hbs, hlength⟩ := @lengthened_eq _ _ _ _ d.fill hcontent hinside
      (Nat.le_add_right t.len (ran max d.amount)) hpos
    exact ⟨bs, _, by rw [hbs, Option.map_some], hlength⟩
  have hreplace : ∀ bs : Bytes, bs.length = t.len → ∃ bs' newlength,
      (replaced file t file.length t.len bs).map (·, t.len) =
        some (file.take t.pos ++ (bs' ++ file.drop (t.pos + t.len)), newlength) ∧
      bs'.length = newlength := by
    intro bs hlength
    exact ⟨bs, _, by rw [replaced_eq hinside (by omega) hlength, Option.map_some], hlength⟩
  rw [modifyString]
  split
  · refine ⟨(file.drop t.pos).take t.len, t.len, by rw [← hkept], ?_⟩
    rw [List.length_take, List.length_drop]
    omega
  · exact hshorten
  · exact hshorten
  · exact hlengthen _
  · exact hlengthen _
  · exact hlengthen _
  · exact hlengthen _
  · exact ⟨[], 0, by rw [removed_eq hinside, Option.map_some], rfl⟩
  · exact hlengthen _
  · exact hreplace _ fillCtrl_length
  · exact hreplace _ fillCtrl_length
  · exact hreplace _ fillCtrl_length
  · exact hreplace _ fillInvalid_length
  · exact hreplace _ fillInvalid_length
  · exact hreplace _ fillInvalid_length
  · -- there are fifteen choices
    simp only [imp_false] at *
    omega

end Parts

/-! ### The changes of the fields -/

section Fields

variable {fields : List FoundInt} {m : Bytes} {p newlength : ℕ} {l : FoundInt}

/-- How a value is written in an encoding. -/
def IntEncoding.encode (enc : IntEncoding) (val : ℕ) : Bytes :=
  if enc.isBigEndian then (bytesOf enc.width val).reverse else bytesOf enc.width val

theorem IntEncoding.encode_length (enc : IntEncoding) (val : ℕ) :
    (enc.encode val).length = enc.width := by
  rw [encode]
  split
  · rw [List.length_reverse, bytesOf_length]
  · exact bytesOf_length _ _

/-- What is read back is the value, as far as it fits. -/
theorem IntEncoding.decode_encode (enc : IntEncoding) (val : ℕ) :
    enc.decode (enc.encode val) = val % 2 ^ (8 * enc.width) := by
  have hpow : (2 : ℕ) ^ (8 * enc.width) = 256 ^ enc.width := by rw [Nat.pow_mul]
  rw [hpow, decode, encode]
  split
  · rw [bigEndian, List.reverse_reverse, word_bytesOf_mod]
  · rw [littleEndian, word_bytesOf_mod]

theorem writeNewValue_eq (val : ℕ) : writeNewValue m l val = put m l.pos (l.enc.encode val) := by
  rw [writeNewValue]
  cases l.enc <;> rfl

/-- The fields have the width of their encoding, and end before `p`. -/
def FieldsBefore (fields : List FoundInt) (p : ℕ) : Prop :=
  ∀ l ∈ fields, l.enc.width = l.byteW ∧ l.pos + l.byteW ≤ p

/-- A byte of the field. -/
def FoundInt.Covers (l : FoundInt) (j : ℕ) : Prop := l.pos ≤ j ∧ j < l.pos + l.byteW

/-- One change: the length stays, and the bytes outside of the field do. -/
structure Changed (newlength : ℕ) (l : FoundInt) (d : FieldDraws) (m m' : Bytes) : Prop where
  length : m'.length = m.length
  outside : ∀ j, ¬l.Covers j → m'[j]? = m[j]?
  fitting : ran 11 d.change = 4 →
    l.enc.decode ((m'.drop l.pos).take l.byteW) = newlength % 2 ^ (8 * l.byteW)

theorem put_field {xs : Bytes} (hxs : xs.length = l.byteW) (hle : l.pos + l.byteW ≤ m.length) :
    ∃ m', put m l.pos xs = some m' ∧ m'.length = m.length ∧
      (∀ j, ¬l.Covers j → m'[j]? = m[j]?) ∧ (m'.drop l.pos).take l.byteW = xs := by
  obtain ⟨m', hm', hlength, htake, houtside⟩ := put_spec (hxs.symm ▸ hle)
  rw [hxs] at htake houtside
  exact ⟨m', hm', hlength, houtside, htake⟩

theorem changeField_eq {d : FieldDraws} (hl : chosen fields d = some l)
    (hwidth : l.enc.width = l.byteW) (hle : l.pos + l.byteW ≤ m.length) :
    ∃ m', changeField newlength fields d m = some m' ∧ Changed newlength l d m m' := by
  have hran : ran 11 d.change < 11 := ran_lt (by omega)
  have hwrite : ∀ val, ran 11 d.change ≠ 4 →
      ∃ m', writeNewValue m l val = some m' ∧ Changed newlength l d m m' := by
    intro val hne
    obtain ⟨m', hm', hlength, houtside, -⟩ := @put_field _ _ (l.enc.encode val)
      ((l.enc.encode_length val).trans hwidth) hle
    exact ⟨m', by rw [writeNewValue_eq, hm'], hlength, houtside, fun h => absurd h hne⟩
  have hset : ∀ b : UInt8, ran 11 d.change ≠ 4 →
      ∃ m', put m l.pos (List.replicate l.byteW b) = some m' ∧ Changed newlength l d m m' := by
    intro b hne
    obtain ⟨m', hm', hlength, houtside, -⟩ := put_field (List.length_replicate) hle
    exact ⟨m', hm', hlength, houtside, fun h => absurd h hne⟩
  rw [changeField, hl, Option.bind_some]
  split
  · exact ⟨m, rfl, rfl, fun _ _ => rfl, fun h => by omega⟩
  · exact hwrite _ (by omega)
  · exact hwrite _ (by omega)
  · exact hwrite _ (by omega)
  · obtain ⟨m', hm', hlength, houtside, htake⟩ := @put_field _ _ (l.enc.encode newlength)
      ((l.enc.encode_length newlength).trans hwidth) hle
    refine ⟨m', by rw [writeNewValue_eq, hm'], hlength, houtside, fun _ => ?_⟩
    rw [htake, IntEncoding.decode_encode, hwidth]
  · exact hwrite _ (by omega)
  · exact hwrite _ (by omega)
  · exact hset _ (by omega)
  · exact hset _ (by omega)
  · exact hset _ (by omega)
  · exact hset _ (by omega)
  · -- there are eleven choices
    simp only [imp_false] at *
    omega

theorem chosen_isSome (hne : fields ≠ []) (d : FieldDraws) :
    ∃ l ∈ fields, chosen fields d = some l := by
  have hlt : ran fields.length d.field < fields.length := ran_lt (List.length_pos_iff.mpr hne)
  exact ⟨_, List.getElem_mem hlt, List.getElem?_eq_getElem hlt⟩

/-- After any number of changes only bytes of the chosen fields are other ones. -/
theorem changeFields_eq {d : Draws} (hfields : FieldsBefore fields p) (hne : fields ≠ [])
    (hp : p ≤ m.length) (k : ℕ) :
    ∃ m', changeFields newlength fields d m k = some m' ∧ m'.length = m.length ∧
      ∀ j, (∀ k' < k, ∀ l, chosen fields (d.fields k') = some l → ¬l.Covers j) →
        m'[j]? = m[j]? := by
  induction k with
  | zero => exact ⟨m, rfl, rfl, fun _ _ => rfl⟩
  | succ k ih =>
    obtain ⟨m', hm', hlength, houtside⟩ := ih
    obtain ⟨l, hmem, hl⟩ := chosen_isSome hne (d.fields k)
    obtain ⟨hwidth, hle⟩ := hfields l hmem
    obtain ⟨m'', hm'', hchanged⟩ := @changeField_eq _ _ newlength _ _ hl hwidth
      (show l.pos + l.byteW ≤ m'.length by omega)
    refine ⟨m'', by rw [changeFields, hm', Option.bind_some, hm''],
      hchanged.length.trans hlength, fun j hj => ?_⟩
    rw [hchanged.outside j (hj k (Nat.lt_succ_self k) l hl)]
    exact houtside j fun k' hk' => hj k' (Nat.lt_succ_of_lt hk')

end Fields

end Fluffi.CaRRoT
