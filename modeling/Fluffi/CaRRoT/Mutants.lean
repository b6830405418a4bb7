import Fluffi.CaRRoT.MutatedParts

/-! What the mutator makes of an analysed file. In front of the string only its length fields
change, and behind it at most the zero bytes go. -/

namespace Fluffi.CaRRoT

open Fluffi.Systems Fluffi.Systems.Slices Fluffi.Shared

/-! ### The mutant -/

section Mutant

variable {contents : Bytes} {t : Text} {newlength draw : ℕ} {pre bs suffix : Bytes}

/-- The zero bytes behind the new string go, or nothing. -/
theorem removeTerminator_eq (hpre : pre.length = t.pos) (hbs : bs.length = newlength) :
    ∃ suffix', removeTerminator t newlength draw (pre ++ (bs ++ suffix)) =
        some (pre ++ (bs ++ suffix')) ∧
      (suffix' = suffix ∨ t.term = true ∧ suffix' = suffix.dropWhile (· = 0x00)) := by
  have hlength : (pre ++ bs).length = t.pos + newlength := by rw [List.length_append, hpre, hbs]
  have hdrop : (pre ++ (bs ++ suffix)).drop (t.pos + newlength) = suffix := by
    rw [← hlength, ← List.append_assoc, List.drop_left]
  have htake : (pre ++ (bs ++ suffix)).take (t.pos + newlength) = pre ++ bs := by
    rw [← hlength, ← List.append_assoc, List.take_left]
  have htotal : (pre ++ (bs ++ suffix)).length = t.pos + newlength + suffix.length := by
    simp only [List.length_append]
    omega
  rw [removeTerminator]
  split
  · split
    · rename_i hterm
      have hrest : (pre ++ (bs ++ suffix)).drop (firstNonTerm (pre ++ (bs ++ suffix))
          (t.pos + newlength)) = suffix.dropWhile (· = 0x00) := by
        rw [firstNonTerm, ← List.drop_drop, hdrop, drop_length_takeWhile]
      have hle : (suffix.takeWhile fun b => decide (b = 0x00)).length ≤ suffix.length :=
        (List.takeWhile_prefix _).length_le
      refine ⟨suffix.dropWhile (· = 0x00), ?_, .inr ⟨hterm, rfl⟩⟩
      rw [slice_take (by omega), Option.bind_some, slice_drop, hrest, htake, Option.map_some,
        List.append_assoc]
      rw [firstNonTerm, hdrop]
      omega
    · exact ⟨suffix, rfl, .inl rfl⟩
  · exact ⟨suffix, rfl, .inl rfl⟩

theorem stringMDo_eq {size : ℕ} {blks : List Block} {file : Bytes} {d : Draws} {blk : Block}
    {ts : List Text} (hblk : blks[ran blks.length d.block]? = some blk) (hlength : blk.length ≠ [])
    (ht : blk.t = t :: ts) :
    stringMDo contents size blks file d =
      (modifyString contents file size t d).bind fun (mutated, newlength) =>
        (changeFields newlength blk.length d mutated (changesOf blk.length d)).bind
          (removeTerminator t newlength d.terminator) := by
  have hpos : blks.length > 0 := by
    have hlt := (List.getElem?_eq_some_iff.mp hblk).1
    omega
  obtain ⟨l, ls, hcons⟩ := List.exists_cons_of_ne_nil hlength
  rw [stringMDo, if_pos hpos, hblk, Option.bind_some, hcons, ht]

section Analysed

variable {strlim : ℕ} {ar strs : List Text} {fIntDedup : Bool} {ints : List FoundInt}
  (har : Added strlim contents ar) (hstrs : minimizeStrings contents.length ar = some strs)
  (hints : ScansTo contents strs fIntDedup ints)
include har hstrs hints

/-- The length fields of a string end before it: they are outside of all strings. -/
theorem fieldsBefore_lengthsOf (ht : t ∈ strs) (hne : lengthsOf ints t ≠ []) :
    1 ≤ t.len ∧ FieldsBefore (lengthsOf ints t) t.pos := by
  have hmem : ∀ l ∈ ints, l.ReadFrom (contents.drop l.pos) l.pos l.byteW ∧
      Free strs l.pos l.byteW := fun l hl =>
    (@ScansTo.mem _ (.ofMinimized har hstrs) _ _ hints _ hl).2
  have hof : ∀ l ∈ lengthsOf ints t, l ∈ ints ∧ l.pos < t.pos ∧ l.valU = t.len := by
    intro l hl
    obtain ⟨hl, hlt⟩ := List.mem_filter.mp hl
    exact ⟨hl, by simpa using hlt⟩
  have hpos : 1 ≤ t.len := by
    obtain ⟨l, hl⟩ := List.exists_mem_of_ne_nil _ hne
    obtain ⟨hl, -, hval⟩ := hof l hl
    have := (hmem l hl).1.pos_valU
    omega
  refine ⟨hpos, fun l hl => ?_⟩
  obtain ⟨hl, hlt, -⟩ := hof l hl
  obtain ⟨hread, hfree⟩ := hmem l hl
  refine ⟨hread.width, ?_⟩
  by_contra hover
  refine hfree (t.pos - l.pos) (by omega) ⟨t, ht, ?_, ?_⟩
  · omega
  · omega

omit har hstrs hints in
theorem of_mem_sequentialBlocks {blk : Block} (hblk : blk ∈ sequentialBlocks strs ints) :
    ∃ t ∈ strs, blk = lengthBlock ints t ∧ lengthsOf ints t ≠ [] := by
  obtain ⟨t, ht, hsome⟩ := List.mem_filterMap.mp hblk
  split at hsome
  · cases hsome
  · rename_i hne
    exact ⟨t, ht, (Option.some.inj hsome).symm, hne⟩

/-- A mutant of an analysed file. There is no access out of range; what is before the string is the
file, except for bytes of chosen length fields, the string has the new length, and what is behind
it is the file, except for zero bytes that end the string; and a field that is to fit does. -/
theorem stringMDo_mutant {blks : List Block}
    (hblks : ∀ b ∈ blks, b.length = [] ∨ b ∈ sequentialBlocks strs ints) (d : Draws)
    {blk : Block} (hblk : blks[ran blks.length d.block]? = some blk) (hlength : blk.length ≠ []) :
    ∃ t, blk.t = [t] ∧ (∀ l ∈ blk.length, l.pos + l.byteW ≤ t.pos) ∧
      ∃ start newlength,
        modifyString contents contents contents.length t d = some (start, newlength) ∧
        (∀ k < changesOf blk.length d, ∃ l m m', l ∈ blk.length ∧
          chosen blk.length (d.fields k) = some l ∧
          changeFields newlength blk.length d start k = some m ∧
          changeFields newlength blk.length d start (k + 1) = some m' ∧
          (∀ j, ¬(l.pos ≤ j ∧ j < l.pos + l.byteW) → m'[j]? = m[j]?) ∧
          (ran 11 (d.fields k).change = 4 →
            l.enc.decode ((m'.drop l.pos).take l.byteW) = newlength % 2 ^ (8 * l.byteW))) ∧
        ∃ pre newString suffix,
          stringMDo contents contents.length blks contents d = some (pre ++ newString ++ suffix) ∧
          pre.length = t.pos ∧ newString.length = newlength ∧
          (∀ j < t.pos, (∀ k < changesOf blk.length d, ∀ l,
            chosen blk.length (d.fields k) = some l → ¬(l.pos ≤ j ∧ j < l.pos + l.byteW)) →
              pre[j]? = contents[j]?) ∧
          (suffix = contents.drop (t.pos + t.len) ∨
            t.term = true ∧ suffix = (contents.drop (t.pos + t.len)).dropWhile (· = 0x00)) := by
  obtain ⟨t, ht, rfl, hne⟩ := of_mem_sequentialBlocks
    ((hblks blk (List.mem_of_getElem? hblk)).resolve_left hlength)
  obtain ⟨hpos, hfields⟩ := fieldsBefore_lengthsOf har hstrs hints ht hne
  have hinside := inside_of_minimizeStrings har hstrs ht
  obtain ⟨bs, newlength, hmodify, hbs⟩ := @modifyString_eq contents _ _ d
    contents.length hinside hinside hpos
  have hpre : (contents.take t.pos).length = t.pos := List.length_take_of_le (by omega)
  have hchanges := @changeFields_eq _
    (contents.take t.pos ++ (bs ++ contents.drop (t.pos + t.len))) _ newlength d hfields hne
    (by rw [List.length_append, hpre]; omega)
  refine ⟨t, rfl, fun l hl => (hfields l hl).2, _, newlength, hmodify, fun k hk => ?_, ?_⟩
  · obtain ⟨m, hm, hmlength, -⟩ := hchanges k
    obtain ⟨l, hmem, hl⟩ := chosen_isSome hne (d.fields k)
    obtain ⟨hwidth, hle⟩ := hfields l hmem
    obtain ⟨m', hm', hchanged⟩ := @changeField_eq _ _ newlength _ _ hl hwidth
      (show l.pos + l.byteW ≤ m.length by rw [hmlength, List.length_append, hpre]; omega)
    exact ⟨l, m, m', hmem, hl, hm, by rw [changeFields]; exact hm.symm ▸ hm', hchanged.outside,
      hchanged.fitting⟩
  · obtain ⟨m, hm, hmlength, houtside⟩ := hchanges (changesOf (lengthsOf ints t) d)
    have hbefore : t.pos ≤ m.length := by
      rw [hmlength, List.length_append, hpre]
      omega
    have hdrop : m.drop t.pos = bs ++ contents.drop (t.pos + t.len) := by
      refine List.ext_getElem? fun j => ?_
      rw [List.getElem?_drop, houtside (t.pos + j), List.getElem?_append_right (by omega), hpre,
        Nat.add_sub_cancel_left]
      intro k hk l hl hcovers
      have hle := (hfields l (List.mem_of_getElem? hl)).2
      have := hcovers.2
      omega
    have hpre' : (m.take t.pos).length = t.pos := List.length_take_of_le hbefore
    obtain ⟨suffix, hsuffix, hcases⟩ := @removeTerminator_eq t newlength d.terminator _ _
      (contents.drop (t.pos + t.len)) hpre' hbs
    rw [← hdrop, List.take_append_drop] at hsuffix
    refine ⟨m.take t.pos, bs, suffix, ?_, hpre', hbs, fun j hj hnot => ?_, hcases⟩
    · rw [stringMDo_eq hblk hlength rfl, hmodify, Option.bind_some]
      simp only [lengthBlock]
      rw [hm, Option.bind_some, hsuffix, List.append_assoc]
    · rw [List.getElem?_take_of_lt hj, houtside j hnot, List.getElem?_append_left (by omega),
        List.getElem?_take_of_lt hj]

end Analysed

/-- Five letters behind their length are cut to three, the length follows, and the zero byte
behind them goes. -/
theorem stringMDo_hello :
    let hello : Bytes := [0x00, 0x05, 0x68, 0x65, 0x6c, 0x6c, 0x6f, 0x00]
    let blks := [lengthBlock [⟨.uint16be, 2, 0, 5, 5⟩] ⟨.ascii, 2, 5, true⟩]
    let d : Draws := ⟨0, 1, 3, fun _ _ => 0, 0, fun _ => ⟨0, 4, 0⟩, 0⟩
    stringMDo hello 8 blks hello d = some [0x00, 0x03, 0x68, 0x65, 0x6c] ∧
      ∃ pre newString suffix, stringMDo hello 8 blks hello d = some (pre ++ newString ++ suffix) ∧
        pre.length = 2 := by
  intro hello blks d
  have hints : ScansTo hello [⟨.ascii, 2, 5, true⟩] false [⟨.uint16be, 2, 0, 5, 5⟩] :=
    ⟨[(0, 2)], [⟨.uint16be, 2, 0, 5, 5⟩], _, _, by decide, by decide, List.Perm.refl _, rfl,
      List.Perm.refl _, List.pairwise_singleton _ _⟩
  have har : Added 4 hello (asciidigester 4 hello ++ utf8digester 4 hello ++
      unicodedigester 4 hello) := List.Perm.refl _
  have hblks : ∀ b ∈ blks, b.length = [] ∨ b ∈ sequentialBlocks [⟨.ascii, 2, 5, true⟩]
      [⟨.uint16be, 2, 0, 5, 5⟩] := fun b hb => .inr (List.mem_singleton.mp hb ▸ by decide)
  obtain ⟨t, ht, -, -, -, -, -, pre, newString, suffix, hdo, hpre, -⟩ :=
    stringMDo_mutant har (by decide) hints hblks d rfl (by decide)
  obtain rfl : ⟨.ascii, 2, 5, true⟩ = t := (List.cons.inj ht).1
  exact ⟨by decide, pre, newString, suffix, hdo, hpre⟩

end Mutant

end Fluffi.CaRRoT
