import Fluffi.Oedipus.Selection

/-! Which second parents are selected. Each is drawn from the trees that are left, and the one that
was taken goes with what is below it. -/

namespace Fluffi.Oedipus

open Relation Fluffi.Systems Fluffi.Systems.Forests Fluffi.Shared

/-! ### The loop -/

/-- What the loop keeps as long as the testcases that were taken are removed. -/
structure Holds (t : Testcases) (given : Bytes) (numMutations : ℕ) (initials : List t.Node)
    (s : Selection t.cases.length) : Prop where
  remaining : s.initials = initials
  running : s.done = false
  bound : s.i ≤ numMutations
  counted : s.targets.length = s.i
  files : s.files.length = numMutations + 1
  given : s.files[0]? = some given
  loaded : ∀ (j : ℕ) (x : t.Node), s.targets[j]? = some x → s.files[j + 1]? = some (t.bytes x)
  once : s.targets.Nodup
  inTrees : ∀ x ∈ s.targets, x ∈ t.trees initials
  firstTargets : s.i ≤ initials.length → s.targets = initials.take s.i
  children : ∀ p c, c ∈ s.children p → t.IsParent p c ∧ c ∉ s.targets
  childrenOnce : ∀ p, (s.children p).Nodup

section Loop

variable {t : Testcases} {given : Bytes} {numMutations : ℕ} {initials : List t.Node}
  {s : Selection t.cases.length} {draw : ℕ → ℕ} {x y root : t.Node}

/-- A target that was not taken before is loaded, and no child is it afterwards. -/
theorem Holds.load (h : Holds t given numMutations initials s) (hlt : s.i < numMutations)
    (hne : initials ≠ []) {children : t.Node → List t.Node} (hx : x ∉ s.targets)
    (htree : x ∈ t.trees initials)
    (hfirst : s.i + 1 ≤ initials.length → s.targets ++ [x] = initials.take (s.i + 1))
    (hchildren : ∀ p c, c ∈ children p → c ∈ s.children p ∧ c ≠ x)
    (honce : ∀ p, (children p).Nodup) :
    ∃ u, t.load { s with children := children } x = some u ∧
      Holds t given numMutations initials u := by
  have hinitials : s.initials ≠ [] := h.remaining ▸ hne
  have hfiles := h.files
  have hcounted := h.counted
  refine ⟨_, by rw [Testcases.load, query_creator]; exact if_pos (by dsimp only; omega), ?_⟩
  constructor
  · exact h.remaining
  · exact decide_eq_false hinitials
  · exact hlt
  · exact (List.length_append).trans (congrArg Nat.succ hcounted)
  · simp only [Testcases.advance, if_neg hinitials, List.length_set]
    exact hfiles
  · simp only [Testcases.advance, if_neg hinitials]
    rw [List.getElem?_set_ne (Nat.succ_ne_zero _)]
    exact h.given
  · intro j y hy
    simp only [Testcases.advance, if_neg hinitials] at hy ⊢
    rcases Nat.lt_or_ge j s.targets.length with hj | hj
    · rw [List.getElem?_append_left hj] at hy
      rw [List.getElem?_set_ne (by omega)]
      exact h.loaded j y hy
    · rw [List.getElem?_append_right hj, List.getElem?_singleton] at hy
      split at hy
      · obtain rfl := Option.some.inj hy
        obtain rfl : s.i = j := by omega
        rw [List.getElem?_set_self (by omega)]
      · cases hy
  · refine List.nodup_append.mpr ⟨h.once, List.nodup_singleton x, fun a ha b hb heq => ?_⟩
    exact hx (List.mem_singleton.mp hb ▸ heq ▸ ha)
  · intro y hy
    rcases List.mem_append.mp hy with hy | hy
    · exact h.inTrees y hy
    · exact List.mem_singleton.mp hy ▸ htree
  · exact hfirst
  · intro p c hc
    obtain ⟨hold, hcx⟩ := hchildren p c hc
    obtain ⟨hparent, hnot⟩ := h.children p c hold
    refine ⟨hparent, fun hmem => ?_⟩
    rcases List.mem_append.mp hmem with hmem | hmem
    · exact hnot hmem
    · exact hcx (List.mem_singleton.mp hmem)
  · exact honce

theorem pick_mem {children : t.Node → List t.Node} {k : ℕ} (h : pick draw children k x = some y) :
    y ∈ children x := by
  rw [pick] at h
  split at h
  · cases h
  · rename_i c hc
    obtain rfl := Option.some.inj h
    rw [hc]
    exact List.mem_cons_self
  · exact List.mem_of_getElem? h

/-- A walk ends, at a testcase of the tree. -/
theorem Holds.walk_isSome (h : Holds t given numMutations initials s) (draw : ℕ → ℕ)
    (root : t.Node) : ∃ last leaf, t.walk s draw root = some (last, leaf) :=
  t.acyclic.follow_isSome (fun _ _ _ hy => (h.children _ _ (pick_mem hy)).1)
    (Nat.le_of_eq (Fintype.card_fin _)) 0 none root

theorem Holds.walk_spec (h : Holds t given numMutations initials s) {last : Option t.Node}
    (hwalk : t.walk s draw root = some (last, x)) : ReflTransGen t.IsParent root x :=
  (follow_spec (f := pick draw s.children) (R := t.IsParent)
    (fun _ _ _ hy => (h.children _ _ (pick_mem hy)).1) hwalk).1

variable (hroots : ∀ r ∈ initials, parentOf t.cases r = none)
include hroots

/-- An initial testcase is taken for the first time. -/
theorem Holds.select_initial (h : Holds t given numMutations initials s)
    (hlt : s.i < numMutations) (hnodup : initials.Nodup) (hi : s.i < initials.length) :
    ∃ u, t.select s draw = some u ∧ Holds t given numMutations initials u := by
  have hinitials := h.remaining
  have hget : s.initials[s.i]? = some initials[s.i] := by
    rw [hinitials, List.getElem?_eq_getElem hi]
  have hmem : initials[s.i] ∈ initials := List.getElem_mem hi
  have htake : s.targets ++ [initials[s.i]] = initials.take (s.i + 1) := by
    rw [h.firstTargets (Nat.le_of_lt hi), List.take_add_one, List.getElem?_eq_getElem hi,
      Option.toList_some]
  have hnot : initials[s.i] ∉ s.targets := by
    have htaken : (initials.take (s.i + 1)).Nodup := hnodup.sublist (List.take_sublist _ _)
    rw [← htake, List.nodup_append] at htaken
    exact fun hmem => htaken.2.2 _ hmem _ List.mem_cons_self rfl
  have hother : ∀ p c, c ∈ s.children p → c ∈ s.children p ∧ c ≠ initials[s.i] := by
    refine fun p c hc => ⟨hc, fun heq => ?_⟩
    have hparent := (h.children p c hc).1
    rw [heq, Testcases.IsParent, hroots _ hmem] at hparent
    cases hparent
  obtain ⟨u, hu, hkeeps⟩ := h.load hlt (List.ne_nil_of_mem hmem) hnot ⟨_, hmem, .refl⟩
    (fun _ => htake) hother h.childrenOnce
  refine ⟨u, ?_, hkeeps⟩
  rw [Testcases.select, if_pos (by rw [hinitials]; exact hi), hget]
  exact hu

/-- A leaf is taken that is the first child of its parent, and is removed. -/
theorem Holds.select_leaf (h : Holds t given numMutations initials s) (hlt : s.i < numMutations)
    (hi : ¬s.i < initials.length) {last leaf : t.Node}
    (hroot : initials[s.i % initials.length]? = some root)
    (hwalk : t.walk s draw root = some (some last, leaf))
    (hhead : (s.children last).head? = some leaf) :
    ∃ u, t.select s draw = some u ∧ Holds t given numMutations initials u := by
  have hmem : root ∈ initials := List.mem_of_getElem? hroot
  have hne : initials ≠ [] := List.ne_nil_of_mem hmem
  obtain ⟨rest, hrest⟩ := List.head?_eq_some_iff.mp hhead
  obtain ⟨hparent, hnot⟩ := h.children last leaf (hrest ▸ List.mem_cons_self)
  have hleafRoot : leaf ≠ root := by
    rintro rfl
    rw [Testcases.IsParent, hroots _ hmem] at hparent
    cases hparent
  have honce := h.childrenOnce last
  rw [hrest, List.nodup_cons] at honce
  have hother : ∀ p c, c ∈ Function.update s.children last rest p →
      c ∈ s.children p ∧ c ≠ leaf := by
    intro p c hc
    by_cases hp : p = last
    · subst hp
      rw [Function.update_self] at hc
      exact ⟨hrest ▸ List.mem_cons_of_mem leaf hc, fun heq => honce.1 (heq ▸ hc)⟩
    · rw [Function.update_of_ne hp] at hc
      refine ⟨hc, fun heq => hp ?_⟩
      have hcp := (h.children p c hc).1
      rw [heq, Testcases.IsParent, hparent] at hcp
      exact (Option.some.inj hcp).symm
  have honceAll : ∀ p, (Function.update s.children last rest p).Nodup := by
    intro p
    by_cases hp : p = last
    · subst hp
      rw [Function.update_self]
      exact honce.2
    · rw [Function.update_of_ne hp]
      exact h.childrenOnce p
  obtain ⟨u, hu, hkeeps⟩ := h.load hlt hne hnot ⟨root, hmem, h.walk_spec hwalk⟩
    (fun hle => absurd hle (by omega)) hother honceAll
  refine ⟨u, ?_, hkeeps⟩
  have hlen : s.initials.length ≠ 0 := by
    rw [h.remaining]
    exact fun h0 => hne (List.length_eq_zero_iff.mp h0)
  have hroot' : s.initials[s.i % s.initials.length]? = some root := by rw [h.remaining, hroot]
  rw [Testcases.select, if_neg (by rw [h.remaining]; exact hi), if_neg hlen, hroot',
    Option.bind_some, hwalk, Option.bind_some]
  simp only [if_neg hleafRoot, Option.bind_some, hrest]
  exact hu

/-- A step that meets the condition is taken, and keeps the invariant. -/
theorem Holds.select (h : Holds t given numMutations initials s) (hlt : s.i < numMutations)
    (hnodup : initials.Nodup) (hgood : t.FirstChild s draw) :
    ∃ u, t.select s draw = some u ∧ Holds t given numMutations initials u := by
  rw [Testcases.FirstChild, h.remaining] at hgood
  by_cases hi : s.i < initials.length
  · exact h.select_initial hroots hlt hnodup hi
  · obtain ⟨root, last, leaf, hroot, hwalk, hhead⟩ := hgood.resolve_left hi
    exact h.select_leaf hroots hlt hi hroot hwalk hhead

end Loop

/-! ### Runs -/

section Runs

variable {t : Testcases} {gID : String} {lID : ℕ} {given : Bytes} {numMutations : ℕ}
  {initials : List t.Node} {s : Selection t.cases.length}

theorem start_holds (t : Testcases) (gID : String) (lID : ℕ) (given : Bytes)
    (numMutations : ℕ) :
    ∃ start, t.start gID lID given numMutations = some start ∧
      Holds t given numMutations start.initials start ∧
      (∀ r ∈ start.initials, parentOf t.cases r = none) ∧ start.initials.Nodup := by
  obtain ⟨initials, hfilter, hsub⟩ := filterTrees_isSome t gID lID
  refine ⟨_, by rw [Testcases.start, hfilter, Option.map_some], ?_, fun r hr => ?_, ?_⟩
  · constructor
    · rfl
    · rfl
    · exact Nat.zero_le _
    · rfl
    · exact congrArg Nat.succ List.length_replicate
    · rfl
    · exact fun j x hx => by rw [List.getElem?_nil] at hx; cases hx
    · exact List.nodup_nil
    · exact fun x hx => absurd hx List.not_mem_nil
    · exact fun _ => rfl
    · intro p c hc
      change c ∈ (t.buildTrees gID lID).children p at hc
      rw [buildTrees_children] at hc
      have hparent : parentOf t.cases c = some p := by simpa using (List.mem_filter.mp hc).2
      exact ⟨hparent, List.not_mem_nil⟩
    · intro p
      change ((t.buildTrees gID lID).children p).Nodup
      rw [buildTrees_children]
      exact (List.nodup_finRange _).filter _
  · have hmem := hsub.subset hr
    rw [buildTrees_initials] at hmem
    exact if_pos (of_decide_eq_true (List.mem_filter.mp hmem).2)
  · refine List.Nodup.sublist hsub ?_
    rw [buildTrees_initials]
    exact (List.nodup_finRange _).filter _

theorem Holds.length_le (h : Holds t given numMutations initials s) :
    s.targets.length ≤ (t.trees initials).ncard := by
  classical
  rw [← List.toFinset_card_of_nodup h.once, ← Set.ncard_coe_finset, List.coe_toFinset]
  exact Set.ncard_le_ncard h.inTrees (Set.toFinite _)

/-- What the loop keeps is what is expected, in the end as well. -/
theorem Holds.selects (h : Holds t given numMutations initials s) :
    Selects t given numMutations initials s := by
  have hend : ¬s.Runs numMutations → s.i = numMutations := by
    intro hnot
    have hbound := h.bound
    by_contra hne
    exact hnot ⟨by omega, h.running⟩
  have hcounted := h.counted
  have hfiles := h.files
  refine ⟨h.once, h.loaded, fun hnot => ?_, fun hnot => ?_⟩
  · have hhead : s.files.headD [] = given := by
      rw [List.headD_eq_head?_getD, List.head?_eq_getElem?, h.given, Option.getD_some]
    have hdrop : s.files.drop 1 = s.targets.map t.bytes := by
      refine List.ext_getElem? fun j => ?_
      rw [List.getElem?_drop, List.getElem?_map, Nat.add_comm 1 j]
      have hi := hend hnot
      rcases Nat.lt_or_ge j s.targets.length with hj | hj
      · rw [h.loaded j _ (List.getElem?_eq_getElem hj), List.getElem?_eq_getElem hj,
          Option.map_some]
      · rw [List.getElem?_eq_none hj, List.getElem?_eq_none (by omega), Option.map_none]
    rw [Selection.merges, hhead, hdrop, List.map_map]
    rfl
  · have hle := h.length_le
    have hi := hend hnot
    omega

/-- The selection of targets. In every run whose steps take an initial testcase for the first time,
or a leaf that is the first child of its parent, the targets differ, each is merged once, and their
number is right; every walk ends; and there is no access out of range and no number modulo zero. -/
theorem selects_of_firstChild (t : Testcases) (gID : String) (lID : ℕ) (given : Bytes)
    (numMutations : ℕ) :
    ∃ start, t.start gID lID given numMutations = some start ∧
      ∀ tr s, Run (t.next numMutations) start tr s → (∀ p ∈ tr, t.FirstChild p.1 p.2) →
        Selects t given numMutations start.initials s ∧
          (∀ draw root, ∃ last leaf, t.walk s draw root = some (last, leaf)) ∧
          ∀ draw, s.Runs numMutations → t.FirstChild s draw →
            ∃ u, t.select s draw = some u := by
  obtain ⟨start, hstart, hholds, hroots, hnodup⟩ := start_holds t gID lID given numMutations
  refine ⟨start, hstart, fun tr s hrun hgood => ?_⟩
  have hkept : Holds t given numMutations start.initials s := by
    refine (hrun.invariant_mem (G := t.FirstChild) hgood hholds fun {s draw u} hs hg hnext => ?_).1
    rw [Testcases.next] at hnext
    split at hnext
    · rename_i hruns
      obtain ⟨u', hu', hkeeps⟩ := hs.select hroots hruns.1 hnodup hg
      obtain rfl := Option.some.inj (hnext.symm.trans hu')
      exact hkeeps
    · cases hnext
  refine ⟨hkept.selects, hkept.walk_isSome, fun draw hruns hg => ?_⟩
  obtain ⟨u, hu, -⟩ := hkept.select hroots hruns.1 hnodup hg
  exact ⟨u, hu⟩

/-- An initial testcase, and maybe one that was made from it. -/
def oneInitial : Testcases where
  cases := [⟨"initial", 0, "initial", 0, [0x61]⟩]
  unique := by decide
  acyclic := acyclic_of_lt (by decide)

def oneChild : Testcases where
  cases := [⟨"initial", 0, "initial", 0, [0x61]⟩, ⟨"runner", 1, "initial", 0, [0x62]⟩]
  unique := by decide
  acyclic := acyclic_of_lt (by decide)

/-- Both testcases of a tree are selected. -/
theorem selects_oneChild : ∃ start tr s, Run (oneChild.next 2) start tr s ∧
    s.targets.map Fin.val = [0, 1] ∧ Selects oneChild [0x63] 2 start.initials s := by
  let draw : ℕ → ℕ := fun _ => 0
  let s₀ := (oneChild.start "runner" 2 [0x63] 2).get (by decide)
  let s₁ := (oneChild.next 2 s₀ draw).get (by decide)
  let s₂ := (oneChild.next 2 s₁ draw).get (by decide)
  have hrun : Run (oneChild.next 2) s₀ ([] ++ [(s₀, draw)] ++ [(s₁, draw)]) s₂ :=
    .snoc (.snoc .nil (Option.some_get _).symm) (Option.some_get _).symm
  have hfirst : ∀ p ∈ [] ++ [(s₀, draw)] ++ [(s₁, draw)], oneChild.FirstChild p.1 p.2 := by
    intro p hp
    rcases List.mem_cons.mp hp with rfl | hp
    · exact .inl (by decide)
    · obtain rfl := List.mem_singleton.mp hp
      exact .inr ⟨⟨0, by decide⟩, ⟨0, by decide⟩, ⟨1, by decide⟩, by decide, by decide, by decide⟩
  obtain ⟨start, hstart, hselects⟩ := selects_of_firstChild oneChild "runner" 2 [0x63] 2
  obtain rfl : s₀ = start := Option.some.inj ((Option.some_get _).trans hstart)
  exact ⟨s₀, _, s₂, hrun, by decide, (hselects _ _ hrun hfirst).1⟩

/-- The only testcase has no children, and is selected again. -/
theorem not_selects_again : ∃ start tr s,
    oneInitial.start "runner" 2 [0x63] 2 = some start ∧ Run (oneInitial.next 2) start tr s ∧
      ¬Selects oneInitial [0x63] 2 start.initials s := by
  let draw : ℕ → ℕ := fun _ => 0
  let s₀ := (oneInitial.start "runner" 2 [0x63] 2).get (by decide)
  let s₁ := (oneInitial.next 2 s₀ draw).get (by decide)
  let s₂ := (oneInitial.next 2 s₁ draw).get (by decide)
  have hrun : Run (oneInitial.next 2) s₀ ([] ++ [(s₀, draw)] ++ [(s₁, draw)]) s₂ :=
    .snoc (.snoc .nil (Option.some_get _).symm) (Option.some_get _).symm
  have htwice : ¬s₂.targets.Nodup := by decide
  exact ⟨s₀, _, s₂, (Option.some_get _).symm, hrun, fun h => htwice h.once⟩

end Runs

end Fluffi.Oedipus
