import Mathlib.Data.List.Basic

/-! A server that answers requests one after the other, each with some items, and a reader that
cuts what it gets at every item that ends a reply. The reader gets the replies as they were
given as long as no item of a reply ends it early. -/

namespace Fluffi.Systems

variable {σ ι α : Type*}

/-! ### The server -/

section Server

variable (answer : σ → ι → List α × σ)

/-- All items for the requests. -/
def outputs : σ → List ι → List α
  | _, [] => []
  | s, i :: is => (answer s i).1 ++ outputs (answer s i).2 is

def stateAfter (s : σ) (is : List ι) : σ := is.foldl (fun s i => (answer s i).2) s

variable {answer} (s : σ) (is js : List ι)

@[simp] theorem stateAfter_nil : stateAfter answer s [] = s := rfl

theorem stateAfter_append :
    stateAfter answer s (is ++ js) = stateAfter answer (stateAfter answer s is) js :=
  List.foldl_append

theorem outputs_append :
    outputs answer s (is ++ js) =
      outputs answer s is ++ outputs answer (stateAfter answer s is) js := by
  induction is generalizing s with
  | nil => rfl
  | cons i is ih =>
    rw [List.cons_append, outputs, outputs, ih, List.append_assoc]
    rfl

theorem outputs_singleton (i : ι) : outputs answer s [i] = (answer s i).1 := by
  rw [outputs, outputs, List.append_nil]

end Server

/-! ### The reader -/

/-- A stream that is cut at each item that ends a reply. -/
inductive Cut (ends : α → Bool) : List α → List (List α) → List α → Prop
  | rest {l : List α} (hl : ∀ x ∈ l, ends x = false) : Cut ends l [] l
  | reply {r l rest : List α} {x : α} {rs : List (List α)} (hr : ∀ y ∈ r, ends y = false)
      (hx : ends x = true) (h : Cut ends l rs rest) : Cut ends (r ++ x :: l) (r :: rs) rest

namespace Cut

variable {ends : α → Bool} {l rest : List α} {rs : List (List α)} {x : α}

theorem nil : Cut ends [] [] [] := .rest (by simp)

/-- One more item that ends no reply. -/
theorem more (h : Cut ends l rs rest) (hx : ends x = false) :
    Cut ends (l ++ [x]) rs (rest ++ [x]) := by
  induction h with
  | rest hl =>
    refine .rest fun y hy => ?_
    rcases List.mem_append.mp hy with hy | hy
    · exact hl y hy
    · rwa [List.mem_singleton.mp hy]
  | reply hr hy _ ih =>
    rw [List.append_assoc, List.cons_append]
    exact .reply hr hy ih

/-- One more item that ends a reply. -/
theorem done (h : Cut ends l rs rest) (hx : ends x = true) :
    Cut ends (l ++ [x]) (rs ++ [rest]) [] := by
  induction h with
  | rest hl => exact .reply hl hx nil
  | reply hr hy _ ih =>
    rw [List.append_assoc, List.cons_append, List.cons_append]
    exact .reply hr hy ih

theorem replies_clean (h : Cut ends l rs rest) : ∀ r ∈ rs, ∀ x ∈ r, ends x = false := by
  induction h with
  | rest _ => simp
  | reply hr _ _ ih => exact List.forall_mem_cons.mpr ⟨hr, ih⟩

/-- Each reply was ended by one item. -/
theorem countP (h : Cut ends l rs rest) : l.countP ends = rs.length := by
  induction h with
  | rest hl => exact List.countP_eq_zero.mpr fun x hx => by simp [hl x hx]
  | @reply r l rest x rs hr hx _ ih =>
    have hzero : r.countP ends = 0 := List.countP_eq_zero.mpr fun y hy => by simp [hr y hy]
    rw [List.countP_append, hzero, List.countP_cons_of_pos hx, ih, List.length_cons, Nat.zero_add]

end Cut

/-- Two lists that go on behind their first item that ends a reply. -/
theorem append_cons_inj_of_ends {ends : α → Bool} {r r' l l' : List α} {x x' : α}
    (hr : ∀ y ∈ r, ends y = false) (hx : ends x = true) (hr' : ∀ y ∈ r', ends y = false)
    (hx' : ends x' = true) (h : r ++ x :: l = r' ++ x' :: l') : r = r' ∧ l = l' := by
  induction r generalizing r' with
  | nil =>
    cases r' with
    | nil =>
      rw [List.nil_append, List.nil_append, List.cons.injEq] at h
      exact ⟨rfl, h.2⟩
    | cons y r' =>
      rw [List.nil_append, List.cons_append, List.cons.injEq] at h
      rw [h.1, hr' y List.mem_cons_self] at hx
      cases hx
  | cons y r ih =>
    cases r' with
    | nil =>
      rw [List.nil_append, List.cons_append, List.cons.injEq] at h
      rw [← h.1, hr y List.mem_cons_self] at hx'
      cases hx'
    | cons y' r' =>
      rw [List.cons_append, List.cons_append, List.cons.injEq] at h
      obtain ⟨hrest, hl⟩ := ih (List.forall_mem_cons.mp hr).2 (List.forall_mem_cons.mp hr').2 h.2
      exact ⟨by rw [h.1, hrest], hl⟩

/-- Replies, each with the item that ends it. -/
def ended (replies : List (List α × α)) : List α := replies.flatMap fun r => r.1 ++ [r.2]

theorem length_le_countP_ended {ends : α → Bool} {replies : List (List α × α)}
    (hends : ∀ r ∈ replies, ends r.2 = true) :
    replies.length ≤ (ended replies).countP ends := by
  induction replies with
  | nil => exact Nat.zero_le _
  | cons reply replies ih =>
    rw [List.forall_mem_cons] at hends
    have hrest := ih hends.2
    have hcons : ended (reply :: replies) = reply.1 ++ reply.2 :: ended replies := by simp [ended]
    rw [hcons, List.countP_append, List.countP_cons_of_pos hends.1, List.length_cons]
    omega

/-- A reader that has got a part of the stream: as long as no reply has an item that ends it
early, it has the first replies, and the rest is what it has not got. -/
theorem Cut.eq_replies {ends : α → Bool} {l rest future tail : List α} {rs : List (List α)}
    (h : Cut ends l rs rest) {replies : List (List α × α)}
    (hstream : l ++ future = ended replies ++ tail) (hends : ∀ r ∈ replies, ends r.2 = true)
    (hlength : rs.length ≤ replies.length)
    (hclean : ∀ r ∈ replies.take rs.length, ∀ x ∈ r.1, ends x = false) :
    rs = (replies.take rs.length).map (·.1) ∧
      rest ++ future = ended (replies.drop rs.length) ++ tail := by
  induction h generalizing replies with
  | rest _ => exact ⟨rfl, hstream⟩
  | @reply r l rest x rs hr hx _ ih =>
    cases replies with
    | nil => simp at hlength
    | cons reply replies =>
      rw [List.length_cons, List.take_succ_cons, List.forall_mem_cons] at hclean
      rw [List.forall_mem_cons] at hends
      have hsplit : r ++ x :: (l ++ future) = reply.1 ++ reply.2 :: (ended replies ++ tail) := by
        rw [ended, List.flatMap_cons] at hstream
        simpa [ended] using hstream
      obtain ⟨hfirst, hrest⟩ := append_cons_inj_of_ends hr hx hclean.1 hends.1 hsplit
      obtain ⟨hrs, hfuture⟩ := ih hrest hends.2 (Nat.le_of_succ_le_succ hlength) hclean.2
      refine ⟨?_, hfuture⟩
      rw [List.length_cons, List.take_succ_cons, List.map_cons, ← hrs, hfirst]

end Fluffi.Systems
