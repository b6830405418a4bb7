import Fluffi.Shared.Proxy

/-! What a step of the proxy, of a client or of a worker can do, and what every step keeps: the
forms of the messages on their way, where each request is, and how many of each there are. -/

namespace Fluffi.Shared.CommProxyWorker

open Systems

namespace CommInterface

/-! ### What a step can do -/

/-- A request was given to the worker and its reply has not been read yet. -/
def Processing (s : CommInterface) (w : Bytes) : Prop :=
  w ∈ s.toWorkers.map Prod.fst ∨ w ∈ s.handling.map Prod.fst ∨
    ∃ m ∈ s.backend, m.request ≠ none ∧ m.frames.head? = some w

/-- The forms that messages have on their way, and which request each one is. -/
structure Formed (s : CommInterface) : Prop where
  frontend : ∀ m ∈ s.frontend, ∃ t c p, s.requests[t]? = some (c, p) ∧
    m = ⟨some t, [c.bytes, [], p]⟩
  toWorkers : ∀ x ∈ s.toWorkers, ∃ t c p, s.requests[t]? = some (c, p) ∧
    x.2 = ⟨some t, [[], c.bytes, [], p]⟩
  handling : ∀ x ∈ s.handling, ∃ t c p, s.requests[t]? = some (c, p) ∧
    x.2 = ⟨some t, [c.bytes, []]⟩
  backend : ∀ m ∈ s.backend, (∃ w, m = ⟨none, [w, [], READY]⟩) ∨
    ∃ t c p w r, s.requests[t]? = some (c, p) ∧ (some t, r) ∈ s.answers ∧
      m = ⟨some t, [w, [], c.bytes, [], r]⟩
  returned : ∀ x ∈ s.returned, ∃ t c p r, s.requests[t]? = some (c, p) ∧
    (some t, r) ∈ s.answers ∧ x = ⟨some t, c.bytes, [[], r]⟩

/-- Each started worker has exactly one place: the queue, a request on its way to it or
in its handler, or a message of its own at the backend. -/
structure Placed (s : CommInterface) : Prop where
  started : s.started.Nodup
  turns : ∀ w, s.m_worker_queue.count w + (s.toWorkers.map Prod.fst).count w +
    (s.handling.map Prod.fst).count w + (s.backend.map (·.frames.head?)).count (some w) =
      s.started.count w
  registered : ∀ w, s.registered.count w +
    (s.backend.map fun m => (m.request, m.frames.head?)).count (none, some w) = s.started.count w

/-- Each request has one place, and so has each answer. -/
structure Counted (s : CommInterface) : Prop where
  requests : ∀ o, (s.frontend.map (·.request)).count o + (s.handed.map Prod.fst).count o =
    ((List.range s.requests.length).map some).count o
  handed : ∀ o, (s.toWorkers.map (·.2.request)).count o + (s.handling.map (·.2.request)).count o +
    (s.answers.map Prod.fst).count o = (s.handed.map Prod.fst).count o
  answers : ∀ t, (s.backend.map (·.request)).count (some t) +
    (s.returned.map (·.request)).count (some t) = (s.answers.map Prod.fst).count (some t)

/-- What a step can do while all messages are formed as they should. -/
inductive Moves (s : CommInterface) : CommInterface → Prop
  | round (state : Activity) (point : Point) (flags : Flags) (control : List Bytes) :
      Moves s { s with state := state, point := point, flags := flags, control := control }
  | send (c : ClientIdentity) (p : Bytes) :
      Moves s { s with
        frontend := s.frontend ++ [⟨some s.requests.length, [c.bytes, [], p]⟩]
        requests := s.requests ++ [(c, p)] }
  | ready (w : Bytes) (hw : w ∉ s.started) :
      Moves s { s with
        started := s.started ++ [w]
        backend := s.backend ++ [⟨none, [w, [], READY]⟩] }
  | receive {pre post : List (Bytes × Message)} {w : Bytes} {t : ℕ} {c : ClientIdentity}
      {p : Bytes} (hp : s.requests[t]? = some (c, p))
      (h : s.toWorkers = pre ++ (w, ⟨some t, [[], c.bytes, [], p]⟩) :: post) :
      Moves s { s with
        toWorkers := pre ++ post
        handling := s.handling ++ [(w, ⟨some t, [c.bytes, []]⟩)] }
  | respond {pre post : List (Bytes × Message)} {w : Bytes} {t : ℕ} {c : ClientIdentity}
      {p : Bytes} (r : Bytes) (hp : s.requests[t]? = some (c, p))
      (h : s.handling = pre ++ (w, ⟨some t, [c.bytes, []]⟩) :: post) :
      Moves s { s with
        handling := pre ++ post
        backend := s.backend ++ [⟨some t, [w, [], c.bytes, [], r]⟩]
        answers := s.answers ++ [(some t, r)] }
  | register {pre post : List Message} {w : Bytes}
      (h : s.backend = pre ++ ⟨none, [w, [], READY]⟩ :: post) :
      Moves s { s with
        backend := pre ++ post
        m_worker_queue := s.m_worker_queue ++ [w]
        registered := s.registered ++ [w]
        point := .request }
  | giveBack {pre post : List Message} {w : Bytes} {t : ℕ} {c : ClientIdentity} {p r : Bytes}
      (hp : s.requests[t]? = some (c, p)) (hr : (some t, r) ∈ s.answers)
      (h : s.backend = pre ++ ⟨some t, [w, [], c.bytes, [], r]⟩ :: post) :
      Moves s { s with
        backend := pre ++ post
        m_worker_queue := s.m_worker_queue ++ [w]
        returned := s.returned ++ [⟨some t, c.bytes, [[], r]⟩]
        point := .request }
  | handOver {pre post : List Message} {w : Bytes} {queue : List Bytes} {t : ℕ}
      {c : ClientIdentity} {p : Bytes} (hq : s.m_worker_queue = w :: queue)
      (hp : s.requests[t]? = some (c, p))
      (h : s.frontend = pre ++ ⟨some t, [c.bytes, [], p]⟩ :: post) :
      Moves s { s with
        frontend := pre ++ post
        m_worker_queue := queue
        toWorkers := s.toWorkers ++ [(w, ⟨some t, [[], c.bytes, [], p]⟩)]
        handed := s.handed ++ [(some t, w)]
        point := .poll }

theorem split_of_getElem? {α : Type*} {l : List α} {i : ℕ} {x : α} (h : l[i]? = some x) :
    ∃ pre post, l = pre ++ x :: post ∧ l.eraseIdx i = pre ++ post := by
  obtain ⟨hi, rfl⟩ := List.getElem?_eq_some_iff.mp h
  exact ⟨l.take i, l.drop (i + 1), by simp, List.eraseIdx_eq_take_drop_succ l i⟩

variable {s t : CommInterface} {e : ProxyEvent}

theorem Placed.mem_started (h : Placed s) {w : Bytes} (hw : w ∈ s.m_worker_queue) :
    w ∈ s.started := by
  rw [← List.count_pos_iff] at hw ⊢
  have := h.turns w
  omega

theorem moves_of_next (hf : Formed s) (hp : Placed s) (h : next s e = some t) : Moves s t := by
  cases e with
  | send c p =>
    cases h
    exact .send c p
  | command text =>
    cases h
    exact .round _ _ _ _
  | ready w =>
    rw [next] at h
    split at h
    · cases h
    · cases h
      exact .ready w ‹_›
  | receive i =>
    rw [next] at h
    split at h
    · cases h
    · rename_i w m hi
      obtain ⟨pre, post, hpre, hpost⟩ := split_of_getElem? hi
      obtain ⟨n, c, p, hreq, hm⟩ := hf.toWorkers (w, m) (by rw [hpre]; simp)
      obtain rfl : m = _ := hm
      split at h
      · cases h
      · simp only [reqRecv, List.dropLast, hpost] at h
        cases h
        exact .receive hreq hpre
  | respond i r =>
    rw [next] at h
    split at h
    · cases h
    · rename_i w m hi
      obtain ⟨pre, post, hpre, hpost⟩ := split_of_getElem? hi
      obtain ⟨n, c, p, hreq, hm⟩ := hf.handling (w, m) (by rw [hpre]; simp)
      obtain rfl : m = _ := hm
      cases h
      rw [hpost]
      exact .respond r hreq hpre
  | poll flags =>
    rw [next] at h
    split at h
    · cases h
      exact .round _ _ _ _
    · cases h
  | processControl =>
    rw [next] at h
    split at h
    · cases h
    · split at h
      · split at h
        · cases h
        · obtain ⟨state, _, rfl⟩ := Option.map_eq_some_iff.mp h
          exact .round _ _ _ _
      · cases h
        exact .round _ _ _ _
  | processReply i =>
    rw [next] at h
    split at h
    · cases h
    · split at h
      · split at h
        · cases h
        · rename_i m hi
          obtain ⟨pre, post, hpre, hpost⟩ := split_of_getElem? hi
          rcases hf.backend m (by rw [hpre]; simp) with
            ⟨w, rfl⟩ | ⟨n, c, p, w, r, hreq, hr, rfl⟩
          · cases h
            rw [hpost]
            exact .register hpre
          · have hclient : ¬[c.bytes, [], r].head? = some READY := by simpa using c.ne_READY
            simp only [unwrap, List.length_nil, if_true, Option.map_some, reply, if_neg hclient,
              sendFrontend, hpost] at h
            cases h
            exact .giveBack hreq hr hpre
      · cases h
        exact .round _ _ _ _
  | processRequest i =>
    rw [next] at h
    split at h
    · cases h
    · split at h
      · split at h
        · cases h
          exact .round _ _ _ _
        · rename_i w queue hq
          split at h
          · cases h
          · rename_i m hi
            obtain ⟨pre, post, hpre, hpost⟩ := split_of_getElem? hi
            obtain ⟨n, c, p, hreq, rfl⟩ := hf.frontend m (by rw [hpre]; simp)
            have hw : w ∈ s.started := hp.mem_started (by simp [hq])
            simp only [wrap, sendBackend, if_pos hw, hpost] at h
            cases h
            exact .handOver hq hreq hpre
      · cases h
        exact .round _ _ _ _

/-! ### What every step keeps -/

theorem mem_of_mem_cut {α : Type*} {l pre post : List α} {x y : α} (h : l = pre ++ x :: post)
    (hy : y ∈ pre ++ post) : y ∈ l := by
  rw [h]
  exact (List.mem_append.mp hy).elim (List.mem_append_left _)
    fun hy => List.mem_append_right _ (List.mem_cons_of_mem _ hy)

theorem Formed.of_moves (h : Formed s) (hm : Moves s t) : Formed t := by
  have hbackend {pre post : List Message} {x : Message} (hx : s.backend = pre ++ x :: post) :=
    fun m hm => h.backend m (mem_of_mem_cut hx hm)
  obtain ⟨hf, hw, hh, hb, hr⟩ := h
  cases hm with
  | round => exact ⟨hf, hw, hh, hb, hr⟩
  | send c p => constructor <;> grind
  | ready w _ => constructor <;> grind
  | receive hp hx =>
    refine ⟨hf, fun x h => hw x (mem_of_mem_cut hx h), ?_, hb, hr⟩
    rw [List.forall_mem_append, List.forall_mem_singleton]
    exact ⟨hh, _, _, _, hp, rfl⟩
  | respond r hp hx =>
    have hrest := fun x h => hh x (mem_of_mem_cut hx h)
    refine ⟨hf, hw, hrest, ?_, ?_⟩ <;> grind
  | register hx => exact ⟨hf, hw, hh, hbackend hx, hr⟩
  | giveBack hp hr' hx =>
    refine ⟨hf, hw, hh, hbackend hx, ?_⟩
    rw [List.forall_mem_append, List.forall_mem_singleton]
    exact ⟨hr, _, _, _, _, hp, hr', rfl⟩
  | handOver hq hp hx =>
    refine ⟨fun x h => hf x (mem_of_mem_cut hx h), ?_, hh, hb, hr⟩
    rw [List.forall_mem_append, List.forall_mem_singleton]
    exact ⟨hw, _, _, _, hp, rfl⟩

theorem Placed.of_moves (h : Placed s) (hm : Moves s t) : Placed t := by
  obtain ⟨hstarted, hturns, hregistered⟩ := h
  cases hm with
  | round => exact ⟨hstarted, hturns, hregistered⟩
  | send c p => exact ⟨hstarted, hturns, hregistered⟩
  | ready w hw =>
    refine ⟨?_, fun v => ?_, fun v => ?_⟩
    · simpa using hstarted.concat hw
    · have := hturns v
      simp [List.count_append, List.count_cons]
      omega
    · have := hregistered v
      simp [List.count_append, List.count_cons]
      omega
  | receive hp hx =>
    refine ⟨hstarted, fun v => ?_, hregistered⟩
    have := hturns v
    simp [hx, List.count_append, List.count_cons] at this ⊢
    omega
  | respond r hp hx =>
    refine ⟨hstarted, fun v => ?_, fun v => ?_⟩
    · have := hturns v
      simp [hx, List.count_append, List.count_cons] at this ⊢
      omega
    · have := hregistered v
      simp [List.count_append] at this ⊢
      omega
  | register hx =>
    refine ⟨hstarted, fun v => ?_, fun v => ?_⟩
    · have := hturns v
      simp [hx, List.count_append, List.count_cons] at this ⊢
      omega
    · have := hregistered v
      simp [hx, List.count_append, List.count_cons] at this ⊢
      omega
  | giveBack hp hr hx =>
    refine ⟨hstarted, fun v => ?_, fun v => ?_⟩
    · have := hturns v
      simp [hx, List.count_append, List.count_cons] at this ⊢
      omega
    · have := hregistered v
      simp [hx, List.count_append] at this ⊢
      omega
  | handOver hq hp hx =>
    refine ⟨hstarted, fun v => ?_, hregistered⟩
    have := hturns v
    simp [hq, List.count_append, List.count_cons] at this ⊢
    omega

theorem Counted.of_moves (h : Counted s) (hm : Moves s t) : Counted t := by
  obtain ⟨hrequests, hhanded, hanswers⟩ := h
  cases hm with
  | round => exact ⟨hrequests, hhanded, hanswers⟩
  | send c p =>
    refine ⟨fun o => ?_, hhanded, hanswers⟩
    have := hrequests o
    simp [List.range_succ, List.count_append, List.count_cons] at this ⊢
    omega
  | ready w hw =>
    refine ⟨hrequests, hhanded, fun n => ?_⟩
    have := hanswers n
    simp [List.count_append] at this ⊢
    omega
  | receive hp hx =>
    refine ⟨hrequests, fun o => ?_, hanswers⟩
    have := hhanded o
    simp [hx, List.count_append, List.count_cons] at this ⊢
    omega
  | respond r hp hx =>
    refine ⟨hrequests, fun o => ?_, fun n => ?_⟩
    · have := hhanded o
      simp [hx, List.count_append, List.count_cons] at this ⊢
      omega
    · have := hanswers n
      simp [List.count_append, List.count_cons] at this ⊢
      omega
  | register hx =>
    refine ⟨hrequests, hhanded, fun n => ?_⟩
    have := hanswers n
    simp [hx, List.count_append] at this ⊢
    omega
  | giveBack hp hr hx =>
    refine ⟨hrequests, hhanded, fun n => ?_⟩
    have := hanswers n
    simp [hx, List.count_append, List.count_cons] at this ⊢
    omega
  | handOver hq hp hx =>
    refine ⟨fun o => ?_, fun o => ?_, hanswers⟩
    · have := hrequests o
      simp [hx, List.count_append, List.count_cons] at this ⊢
      omega
    · have := hhanded o
      simp [List.count_append, List.count_cons] at this ⊢
      omega

/-- The invariant of all runs. -/
structure Inv (s : CommInterface) : Prop where
  formed : Formed s
  placed : Placed s
  counted : Counted s

theorem inv_init : Inv init where
  formed := by constructor <;> simp [init]
  placed := by constructor <;> simp [init]
  counted := by constructor <;> simp [init]

theorem inv_run {tr : List (CommInterface × ProxyEvent)} (hrun : Run next init tr s) :
    Inv s ∧ ∀ p ∈ tr, Inv p.1 := by
  refine hrun.invariant_mem (G := fun _ _ => True) (fun _ _ => trivial) inv_init ?_
  intro s e t hs _ hnext
  have hm := moves_of_next hs.formed hs.placed hnext
  exact ⟨hs.formed.of_moves hm, hs.placed.of_moves hm, hs.counted.of_moves hm⟩

end CommInterface

end Fluffi.Shared.CommProxyWorker
