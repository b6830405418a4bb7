import Mathlib.Data.List.Basic
import Mathlib.Data.List.Induction

/-! Finite runs of a partial transition function. The trace of a run keeps each
event together with the state it met, so a property of the past can be read off
the trace. Invariants may speak about the trace and about a guard that every
step of the run meets. -/

namespace Fluffi.Systems

variable {σ ε : Type*} {next : σ → ε → Option σ}

/-- `Run next s tr u`: the steps of `tr` lead from `s` to `u`. -/
inductive Run (next : σ → ε → Option σ) (s : σ) : List (σ × ε) → σ → Prop
  | nil : Run next s [] s
  | snoc {t u : σ} {tr : List (σ × ε)} {e : ε} :
      Run next s tr t → next t e = some u → Run next s (tr ++ [(t, e)]) u

namespace Run

theorem single {s u : σ} {e : ε} (h : next s e = some u) : Run next s [(s, e)] u :=
  .snoc .nil h

theorem append {s t u : σ} {tr₁ tr₂ : List (σ × ε)} (h₁ : Run next s tr₁ t)
    (h₂ : Run next t tr₂ u) : Run next s (tr₁ ++ tr₂) u := by
  induction h₂ with
  | nil => simpa using h₁
  | snoc _ hstep ih => rw [← List.append_assoc]; exact .snoc ih hstep

theorem cons {s t u : σ} {e : ε} {tr : List (σ × ε)} (h : next s e = some t)
    (hr : Run next t tr u) : Run next s ((s, e) :: tr) u :=
  (single h).append hr

theorem nil_inv {s u : σ} (h : Run next s [] u) : u = s := by
  generalize ht : ([] : List (σ × ε)) = tr at h
  cases h with
  | nil => rfl
  | snoc => simp at ht

theorem snoc_inv {s u : σ} {tr : List (σ × ε)} {p : σ × ε} (h : Run next s (tr ++ [p]) u) :
    Run next s tr p.1 ∧ next p.1 p.2 = some u := by
  generalize ht : tr ++ [p] = tr' at h
  cases h with
  | nil => simp at ht
  | snoc hr hstep =>
    obtain ⟨rfl, hp⟩ := List.append_inj' ht rfl
    obtain rfl : p = _ := by simpa using hp
    exact ⟨hr, hstep⟩

/-- A run passes through a state at every cut of its trace. -/
theorem split {s u : σ} {tr₁ tr₂ : List (σ × ε)} (h : Run next s (tr₁ ++ tr₂) u) :
    ∃ t, Run next s tr₁ t ∧ Run next t tr₂ u := by
  induction tr₂ using List.reverseRecOn generalizing u with
  | nil => exact ⟨u, by simpa using h, .nil⟩
  | append_singleton tr₂ p ih =>
    rw [← List.append_assoc] at h
    obtain ⟨hr, hstep⟩ := snoc_inv h
    obtain ⟨t, h₁, h₂⟩ := ih hr
    exact ⟨t, h₁, .snoc h₂ hstep⟩

theorem cons_inv {s u : σ} {p : σ × ε} {tr : List (σ × ε)} (h : Run next s (p :: tr) u) :
    p.1 = s ∧ ∃ t, next s p.2 = some t ∧ Run next t tr u := by
  rw [← List.singleton_append] at h
  obtain ⟨t, h₁, h₂⟩ := split h
  rw [← List.nil_append [p]] at h₁
  obtain ⟨hn, hstep⟩ := snoc_inv h₁
  have hs : p.1 = s := nil_inv hn
  exact ⟨hs, t, hs ▸ hstep, h₂⟩

/-- The step in the middle of a trace, with the runs before and after it. -/
theorem middle {s x u : σ} {e : ε} {pre post : List (σ × ε)}
    (h : Run next s (pre ++ (x, e) :: post) u) :
    Run next s pre x ∧ ∃ y, next x e = some y ∧ Run next y post u := by
  obtain ⟨t, h₁, h₂⟩ := split h
  obtain ⟨hx, y, hstep, hr⟩ := cons_inv h₂
  obtain rfl : x = t := hx
  exact ⟨h₁, y, hstep, hr⟩

/-- The induction rule for a property of the past and the present: it holds at
the start, and every step that meets the guard `G` carries it on. -/
theorem history {G : σ → ε → Prop} {I : List (σ × ε) → σ → Prop} {s₀ s : σ}
    {tr : List (σ × ε)} (hr : Run next s₀ tr s) (hG : ∀ p ∈ tr, G p.1 p.2) (h₀ : I [] s₀)
    (hstep : ∀ {tr s e t}, I tr s → G s e → next s e = some t → I (tr ++ [(s, e)]) t) :
    I tr s := by
  induction hr with
  | nil => exact h₀
  | snoc _ hs ih =>
    have hpast := ih (fun p hp => hG p (List.mem_append_left _ hp))
    exact hstep hpast (hG _ (List.mem_append_right _ (List.mem_singleton_self _))) hs

/-- The induction rule for an invariant of the states. -/
theorem invariant {I : σ → Prop} {s₀ s : σ} {tr : List (σ × ε)} (hr : Run next s₀ tr s)
    (h₀ : I s₀) (hstep : ∀ {s e t}, I s → next s e = some t → I t) : I s :=
  hr.history (G := fun _ _ => True) (I := fun _ s => I s) (fun _ _ => trivial) h₀
    (fun hI _ hs => hstep hI hs)

/-- A guarded invariant holds in every state a step of the run meets. -/
theorem invariant_mem {G : σ → ε → Prop} {I : σ → Prop} {s₀ s : σ} {tr : List (σ × ε)}
    (hr : Run next s₀ tr s) (hG : ∀ p ∈ tr, G p.1 p.2) (h₀ : I s₀)
    (hstep : ∀ {s e t}, I s → G s e → next s e = some t → I t) :
    I s ∧ ∀ p ∈ tr, I p.1 := by
  refine hr.history (G := G) (I := fun tr s => I s ∧ ∀ p ∈ tr, I p.1) hG ⟨h₀, by simp⟩ ?_
  intro tr s e t ⟨hI, hpast⟩ hg hs
  refine ⟨hstep hI hg hs, fun p hp => ?_⟩
  rcases List.mem_append.mp hp with hp | hp
  · exact hpast p hp
  · obtain rfl := List.mem_singleton.mp hp
    exact hI

/-- Where the guard says exactly which steps keep the invariant, a run keeps it exactly if
all its steps meet the guard. -/
theorem invariant_iff {G : σ → ε → Prop} {I : σ → Prop} {s₀ s : σ} {tr : List (σ × ε)}
    (hr : Run next s₀ tr s) (h₀ : I s₀)
    (hstep : ∀ {s e t}, I s → next s e = some t → (I t ↔ G s e)) :
    (I s ∧ ∀ p ∈ tr, I p.1) ↔ ∀ p ∈ tr, G p.1 p.2 := by
  constructor
  · intro ⟨hI, hpast⟩
    induction hr with
    | nil => simp
    | snoc _ hs ih =>
      have hlast := hpast _ (List.mem_append_right _ (List.mem_singleton_self _))
      have hbefore := ih hlast fun p hp => hpast p (List.mem_append_left _ hp)
      intro p hp
      rcases List.mem_append.mp hp with hp | hp
      · exact hbefore p hp
      · obtain rfl := List.mem_singleton.mp hp
        exact (hstep hlast hs).mp hI
  · intro hG
    exact hr.invariant_mem hG h₀ fun hI hg hs => (hstep hI hs).mpr hg

/-- Where runs are bounded and go on until they are done, one of them is done. -/
theorem exists_done {G : ε → Prop} {D : σ → Prop} {s : σ} {bound : ℕ}
    (h : ∀ tr t, Run next s tr t → (∀ p ∈ tr, G p.2) →
      tr.length ≤ bound ∧ (¬ D t → ∃ e u, G e ∧ next t e = some u)) :
    ∃ tr t, Run next s tr t ∧ (∀ p ∈ tr, G p.2) ∧ D t := by
  by_contra hnone
  have hlonger : ∀ n, ∃ tr t, Run next s tr t ∧ (∀ p ∈ tr, G p.2) ∧ tr.length = n := by
    intro n
    induction n with
    | zero => exact ⟨[], s, .nil, nofun, rfl⟩
    | succ n ih =>
      obtain ⟨tr, t, hr, hG, rfl⟩ := ih
      obtain ⟨e, u, he, hu⟩ := (h tr t hr hG).2 fun hD => hnone ⟨tr, t, hr, hG, hD⟩
      refine ⟨_, u, hr.snoc hu, fun p hp => ?_, List.length_append⟩
      rcases List.mem_append.mp hp with hp | hp
      · exact hG p hp
      · rwa [List.mem_singleton.mp hp]
  obtain ⟨tr, t, hr, hG, hlength⟩ := hlonger (bound + 1)
  have hle := (h tr t hr hG).1
  omega

end Run

/-- Run a list of events, recording the trace. -/
def exec (next : σ → ε → Option σ) : σ → List ε → Option (List (σ × ε) × σ)
  | s, [] => some ([], s)
  | s, e :: es => (next s e).bind fun t =>
      (exec next t es).map fun rest => ((s, e) :: rest.1, rest.2)

theorem run_of_exec {s u : σ} {es : List ε} {tr : List (σ × ε)}
    (h : exec next s es = some (tr, u)) : Run next s tr u := by
  induction es generalizing s tr with
  | nil =>
    obtain ⟨rfl, rfl⟩ : [] = tr ∧ s = u := by simpa [exec] using h
    exact .nil
  | cons e es ih =>
    obtain ⟨t, hs, rest, hrec, heq⟩ :
        ∃ t, next s e = some t ∧ ∃ rest, exec next t es = some rest ∧
          ((s, e) :: rest.1, rest.2) = (tr, u) := by
      simpa only [exec, Option.bind_eq_some_iff, Option.map_eq_some_iff] using h
    obtain ⟨rfl, rfl⟩ := Prod.mk.inj heq
    exact .cons hs (ih hrec)

/-! ### The last change -/

section LastChange

variable {α : Type*} {sets clears : α → Prop} {initially : Prop}

/-- What some elements of a list set and others clear is set in the end: it was set before
and is never cleared, or it is set by an element and not cleared after it. -/
def LastChange (sets clears : α → Prop) (initially : Prop) (l : List α) : Prop :=
  (initially ∧ ∀ a ∈ l, ¬ clears a) ∨
    ∃ l₁ a l₂, l = l₁ ++ a :: l₂ ∧ sets a ∧ ∀ b ∈ l₂, ¬ clears b

theorem lastChange_nil : LastChange sets clears initially [] ↔ initially := by
  simp [LastChange]

theorem lastChange_cons (a : α) (l : List α) :
    LastChange sets clears initially (a :: l) ↔
      LastChange sets clears (sets a ∨ (initially ∧ ¬ clears a)) l := by
  constructor
  · rintro (⟨hinitially, hclears⟩ | ⟨l₁, x, l₂, heq, hsets, hclears⟩)
    · rw [List.forall_mem_cons] at hclears
      exact .inl ⟨.inr ⟨hinitially, hclears.1⟩, hclears.2⟩
    · cases l₁ with
      | nil =>
        obtain ⟨rfl, rfl⟩ := List.cons.inj heq
        exact .inl ⟨.inl hsets, hclears⟩
      | cons y l₁ =>
        obtain ⟨rfl, rfl⟩ := List.cons.inj heq
        exact .inr ⟨l₁, x, l₂, rfl, hsets, hclears⟩
  · rintro (⟨hsets | ⟨hinitially, hclear⟩, hclears⟩ | ⟨l₁, x, l₂, rfl, hsets, hclears⟩)
    · exact .inr ⟨[], a, l, rfl, hsets, hclears⟩
    · exact .inl ⟨hinitially, List.forall_mem_cons.mpr ⟨hclear, hclears⟩⟩
    · exact .inr ⟨a :: l₁, x, l₂, rfl, hsets, hclears⟩

end LastChange

end Fluffi.Systems
