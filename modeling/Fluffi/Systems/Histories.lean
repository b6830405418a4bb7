import Fluffi.Systems.Run

/-! What a state holds, read off the history of its run. Where each step says what it sets and
what it clears, a thing is held in the end exactly if its last change has set it. -/

namespace Fluffi.Systems

variable {σ ε α : Type*} {next : σ → ε → Option σ} {sets clears : α → Prop} {initially : Prop}

/-- The last change of a list with one element more. -/
theorem lastChange_append_singleton (l : List α) (a : α) :
    LastChange sets clears initially (l ++ [a]) ↔
      sets a ∨ (LastChange sets clears initially l ∧ ¬ clears a) := by
  induction l generalizing initially with
  | nil => rw [List.nil_append, lastChange_cons, lastChange_nil, lastChange_nil]
  | cons b l ih => rw [List.cons_append, lastChange_cons, ih, lastChange_cons]

namespace Run

/-- The rule for a thing that steps set and clear. -/
theorem lastChange {s₀ s : σ} {tr : List (σ × ε)} (hr : Run next s₀ tr s) (holds : σ → Prop)
    (sets clears : σ × ε → Prop)
    (hstep : ∀ {s e t}, next s e = some t → (holds t ↔ sets (s, e) ∨ holds s ∧ ¬ clears (s, e))) :
    holds s ↔ LastChange sets clears (holds s₀) tr := by
  induction hr with
  | nil => exact lastChange_nil.symm
  | snoc _ hs ih => rw [hstep hs, ih, lastChange_append_singleton]

end Run

end Fluffi.Systems
