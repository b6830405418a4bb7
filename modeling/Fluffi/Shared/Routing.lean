import Fluffi.Shared.ProxySteps

/-! Whom the proxy sends what to. In every run each request goes to one idle worker, and each reply
goes back to the client that sent the request, and the proxy always goes on. -/

namespace Fluffi.Shared.CommProxyWorker

open Systems

namespace CommInterface

variable {s t : CommInterface} {e : ProxyEvent}

/-! ### Routing -/

/-- What the queue, the requests and the replies of a state are. -/
structure Routed (s : CommInterface) : Prop where
  queue_nodup : s.m_worker_queue.Nodup
  mem_queue : ∀ w, w ∈ s.m_worker_queue ↔ w ∈ s.registered ∧ ¬Processing s w
  /-- A request waits at the frontend or was handed to a worker, not both and not twice. -/
  handed_iff : ∀ n < s.requests.length,
    some n ∈ s.handed.map Prod.fst ↔ some n ∉ s.frontend.map (·.request)
  handed_once : (s.handed.map Prod.fst).Nodup
  /-- Workers answer what they were handed, once. -/
  answers_handed : ∀ a ∈ s.answers, a.1 ∈ s.handed.map Prod.fst
  answers_once : (s.answers.map Prod.fst).Nodup
  /-- An answer waits at the backend or was returned, not both and not twice. -/
  returned_iff : ∀ a ∈ s.answers,
    a.1 ∈ s.returned.map (·.request) ↔ a.1 ∉ s.backend.map (·.request)
  returned_once : (s.returned.map (·.request)).Nodup
  /-- The client gets the answer to its own request. -/
  returned_own : ∀ x ∈ s.returned, ∃ n c p r, s.requests[n]? = some (c, p) ∧
    (some n, r) ∈ s.answers ∧ x = ⟨some n, c.bytes, [[], r]⟩

/-- A step that takes a request from the frontend hands it to one worker, which is
registered and was not processing another. -/
def HandsToIdle (s t : CommInterface) : Prop :=
  t.frontend.length < s.frontend.length →
    ∃ pre m post w, s.frontend = pre ++ m :: post ∧ t.frontend = pre ++ post ∧
      w ∈ s.registered ∧ ¬Processing s w ∧
      t.toWorkers = s.toWorkers ++ [(w, ⟨m.request, [] :: m.frames⟩)] ∧
      t.handed = s.handed ++ [(m.request, w)]

theorem Inv.count_started_le (h : Inv s) (w : Bytes) : s.started.count w ≤ 1 :=
  List.nodup_iff_count_le_one.mp h.placed.started w

theorem Inv.count_range_le (s : CommInterface) (o : Option ℕ) :
    ((List.range s.requests.length).map some).count o ≤ 1 :=
  List.nodup_iff_count_le_one.mp
    (List.nodup_range.map fun _ _ h => Option.some.inj h) o

theorem Inv.count_answers_le (h : Inv s) (o : Option ℕ) :
    (s.answers.map Prod.fst).count o ≤ 1 := by
  have hrequests := h.counted.requests o
  have hhanded := h.counted.handed o
  have hle := Inv.count_range_le s o
  omega

theorem Inv.answer_request (h : Inv s) {a : Option ℕ × Bytes} (ha : a ∈ s.answers) :
    ∃ n, a.1 = some n := by
  have hrequests := h.counted.requests a.1
  have hhanded := h.counted.handed a.1
  have hanswer := List.count_pos_iff.mpr (List.mem_map_of_mem (f := Prod.fst) ha)
  have hrange : 0 < ((List.range s.requests.length).map some).count a.1 := by omega
  obtain ⟨n, _, hn⟩ := List.mem_map.mp (List.count_pos_iff.mp hrange)
  exact ⟨n, hn.symm⟩

/-- A message at the backend is a READY or a reply. -/
theorem count_backend_pos (s : CommInterface) (w : Bytes) :
    0 < (s.backend.map (·.frames.head?)).count (some w) ↔
      0 < (s.backend.map fun m => (m.request, m.frames.head?)).count (none, some w) ∨
        ∃ m ∈ s.backend, m.request ≠ none ∧ m.frames.head? = some w := by
  simp only [List.count_pos_iff, List.mem_map, Prod.mk.injEq]
  constructor
  · intro ⟨m, hm, hw⟩
    by_cases hrequest : m.request = none
    · exact .inl ⟨m, hm, hrequest, hw⟩
    · exact .inr ⟨m, hm, hrequest, hw⟩
  · rintro (⟨m, hm, _, hw⟩ | ⟨m, hm, _, hw⟩) <;> exact ⟨m, hm, hw⟩

theorem Inv.mem_queue_iff (h : Inv s) (w : Bytes) :
    w ∈ s.m_worker_queue ↔ w ∈ s.registered ∧ ¬Processing s w := by
  have hturns := h.placed.turns w
  have hregistered := h.placed.registered w
  have hstarted := h.count_started_le w
  have hbackend := count_backend_pos s w
  unfold Processing
  rw [← List.count_pos_iff, ← List.count_pos_iff, ← List.count_pos_iff, ← List.count_pos_iff]
  by_cases hreply : ∃ m ∈ s.backend, m.request ≠ none ∧ m.frames.head? = some w
  · simp only [hreply, or_true, iff_true, not_true, and_false, iff_false] at hbackend ⊢
    omega
  · simp only [hreply, or_false] at hbackend ⊢
    omega

theorem Inv.routed (h : Inv s) : Routed s where
  queue_nodup := by
    rw [List.nodup_iff_count_le_one]
    intro w
    have hturns := h.placed.turns w
    have hstarted := h.count_started_le w
    omega
  mem_queue := h.mem_queue_iff
  handed_iff n hn := by
    have hrequests := h.counted.requests (some n)
    have hrange : 0 < ((List.range s.requests.length).map some).count (some n) := by
      simpa [List.count_pos_iff] using hn
    have hle := Inv.count_range_le s (some n)
    rw [← List.count_pos_iff, ← List.count_pos_iff]
    omega
  handed_once := by
    rw [List.nodup_iff_count_le_one]
    intro o
    have hrequests := h.counted.requests o
    have hle := Inv.count_range_le s o
    omega
  answers_handed a ha := by
    have hhanded := h.counted.handed a.1
    have hanswer := List.count_pos_iff.mpr (List.mem_map_of_mem (f := Prod.fst) ha)
    rw [← List.count_pos_iff]
    omega
  answers_once := by
    rw [List.nodup_iff_count_le_one]
    exact h.count_answers_le
  returned_iff a ha := by
    obtain ⟨n, hn⟩ := h.answer_request ha
    have hanswers := h.counted.answers n
    have hanswer := List.count_pos_iff.mpr (List.mem_map_of_mem (f := Prod.fst) ha)
    have hle := h.count_answers_le a.1
    rw [← List.count_pos_iff, ← List.count_pos_iff, hn] at *
    omega
  returned_once := by
    rw [List.nodup_iff_count_le_one]
    intro o
    cases o with
    | none =>
      rw [List.count_eq_zero.mpr]
      · exact Nat.zero_le 1
      · intro hmem
        obtain ⟨x, hx, hnone⟩ := List.mem_map.mp hmem
        obtain ⟨n, c, p, r, _, _, rfl⟩ := h.formed.returned x hx
        cases hnone
    | some n =>
      have hanswers := h.counted.answers n
      have hle := h.count_answers_le (some n)
      omega
  returned_own := h.formed.returned

theorem Inv.handsToIdle (h : Inv s) (hm : Moves s t) : HandsToIdle s t := by
  intro hlt
  cases hm with
  | handOver hq hp hx =>
    obtain ⟨hregistered, hidle⟩ := (h.mem_queue_iff _).mp (hq ▸ List.mem_cons_self)
    exact ⟨_, _, _, _, hx, rfl, hregistered, hidle, rfl, rfl⟩
  | send c p =>
    simp at hlt
  | _ => exact absurd hlt (lt_irrefl _)

/-! ### The round goes on -/

/-- What the polls of a round have found is still there when its branches take it. -/
structure Polled (s : CommInterface) : Prop where
  control : s.point = .control → s.flags.controlIn → s.control ≠ []
  backend : s.point = .control ∨ s.point = .reply → s.flags.backendIn → s.backend ≠ []
  frontend : s.point ≠ .poll → s.flags.frontendIn → s.frontend ≠ []

@[simp] theorem reply_frontend (s : CommInterface) (m : Message) (address : Bytes)
    (frames : List Bytes) : (reply s m address frames).frontend = s.frontend := by
  unfold reply sendFrontend
  split
  · rfl
  · split <;> rfl

@[simp] theorem reply_flags (s : CommInterface) (m : Message) (address : Bytes)
    (frames : List Bytes) : (reply s m address frames).flags = s.flags := by
  unfold reply sendFrontend
  split
  · rfl
  · split <;> rfl

theorem Polled.of_next (h : Polled s) (hnext : next s e = some t) : Polled t := by
  obtain ⟨hc, hb, hf⟩ := h
  cases e with
  | send c p =>
    cases hnext
    exact ⟨hc, hb, fun _ _ => by simp⟩
  | command text =>
    cases hnext
    exact ⟨fun _ _ => by simp, hb, hf⟩
  | ready w =>
    rw [next] at hnext
    split at hnext <;> cases hnext
    exact ⟨hc, fun _ _ => by simp, hf⟩
  | receive i =>
    rw [next] at hnext
    split at hnext
    · cases hnext
    · split at hnext
      · cases hnext
      · dsimp only at hnext
        split at hnext <;> cases hnext <;> exact ⟨hc, hb, hf⟩
  | respond i r =>
    rw [next] at hnext
    split at hnext <;> cases hnext
    exact ⟨hc, fun _ _ => by simp, hf⟩
  | poll flags =>
    rw [next] at hnext
    split at hnext <;> cases hnext
    rename_i hpoll
    exact ⟨fun _ => hpoll.2.2.2.2, fun _ => hpoll.2.2.2.1, fun _ => hpoll.2.2.1⟩
  | processControl =>
    rw [next] at hnext
    split at hnext
    · cases hnext
    · rename_i hpoint
      have hpoint : s.point = .control := not_not.mp hpoint
      have hb := hb (.inl hpoint)
      have hf := hf (by rw [hpoint]; decide)
      split at hnext
      · split at hnext
        · cases hnext
        · obtain ⟨state, _, rfl⟩ := Option.map_eq_some_iff.mp hnext
          exact ⟨by simp, fun _ => hb, fun _ => hf⟩
      · cases hnext
        exact ⟨by simp, fun _ => hb, fun _ => hf⟩
  | processReply i =>
    rw [next] at hnext
    split at hnext
    · cases hnext
    · rename_i hpoint
      have hpoint : s.point = .reply := not_not.mp hpoint
      have hf := hf (by rw [hpoint]; decide)
      split at hnext
      · split at hnext
        · cases hnext
        · obtain ⟨⟨address, frames⟩, _, rfl⟩ := Option.map_eq_some_iff.mp hnext
          exact ⟨by simp, by simp, fun _ => by simpa using hf⟩
      · cases hnext
        exact ⟨by simp, by simp, fun _ => hf⟩
  | processRequest i =>
    rw [next] at hnext
    split at hnext
    · cases hnext
    · split at hnext
      · split at hnext
        · cases hnext
          exact ⟨by simp, by simp, fun h => absurd rfl h⟩
        · split at hnext <;> cases hnext
          exact ⟨by simp, by simp, fun h => absurd rfl h⟩
      · cases hnext
        exact ⟨by simp, by simp, fun h => absurd rfl h⟩

theorem polled_run {tr : List (CommInterface × ProxyEvent)} (hrun : Run next init tr s) :
    Polled s :=
  hrun.invariant ⟨by simp [init], by simp [init], fun h => absurd rfl h⟩ Polled.of_next

/-- The proxy neither blocks nor throws: until it is terminated it can take its next step,
unless that is to exit for an invalid command. -/
theorem proxy_goes_on {tr : List (CommInterface × ProxyEvent)} (hrun : Run next init tr s)
    (hcommands : ∀ text ∈ s.control, commanded text ≠ none)
    (hstate : s.point = .poll → s.state ≠ .terminated) :
    ∃ e ∈ [.poll ⟨false, false, false, false, false⟩, .processControl, .processReply 0,
      .processRequest 0], (next s e).isSome := by
  have h := (inv_run hrun).1
  have hpolled := polled_run hrun
  cases hpoint : s.point with
  | poll =>
    refine ⟨.poll ⟨false, false, false, false, false⟩, by simp, ?_⟩
    rw [next, if_pos ⟨hpoint, hstate hpoint, by simp, by simp, by simp⟩]
    rfl
  | control =>
    refine ⟨.processControl, by simp, ?_⟩
    rw [next, if_neg (not_not.mpr hpoint)]
    by_cases hflag : s.flags.controlIn
    · obtain ⟨text, control, hcontrol⟩ := List.exists_cons_of_ne_nil (hpolled.control hpoint hflag)
      obtain ⟨state, hcommanded⟩ := Option.ne_none_iff_exists'.mp
        (hcommands text (by simp [hcontrol]))
      rw [if_pos hflag, hcontrol]
      simp [hcommanded]
    · rw [if_neg hflag]
      simp
  | reply =>
    refine ⟨.processReply 0, by simp, ?_⟩
    rw [next, if_neg (not_not.mpr hpoint)]
    by_cases hgo : s.state = .active ∧ s.flags.backendIn ∧ s.flags.frontendOut
    · obtain ⟨m, backend, hbackend⟩ :=
        List.exists_cons_of_ne_nil (hpolled.backend (.inr hpoint) hgo.2.1)
      rw [if_pos hgo, hbackend]
      rcases h.formed.backend m (by simp [hbackend]) with ⟨w, rfl⟩ | ⟨n, c, p, w, r, _, _, rfl⟩
        <;> simp [unwrap]
    · rw [if_neg hgo]
      simp
  | request =>
    refine ⟨.processRequest 0, by simp, ?_⟩
    rw [next, if_neg (not_not.mpr hpoint)]
    by_cases hgo : s.state = .active ∧ s.flags.frontendIn ∧ s.flags.backendOut
    · obtain ⟨m, frontend, hfrontend⟩ :=
        List.exists_cons_of_ne_nil (hpolled.frontend (by rw [hpoint]; decide) hgo.2.1)
      rw [if_pos hgo, hfrontend]
      cases s.m_worker_queue <;> simp
    · rw [if_neg hgo]
      simp

/-! ### All runs -/

/-- In every run of any number of workers and clients the proxy routes requests to idle
workers and replies to their clients. -/
theorem routed_run {tr : List (CommInterface × ProxyEvent)} (hrun : Run next init tr s) :
    Routed s ∧ ∀ p ∈ tr, ∀ t, next p.1 p.2 = some t → HandsToIdle p.1 t := by
  obtain ⟨hs, hpast⟩ := inv_run hrun
  refine ⟨hs.routed, fun p hp t hnext => ?_⟩
  have hinv := hpast p hp
  exact hinv.handsToIdle (moves_of_next hinv.formed hinv.placed hnext)

/-- A client gets its answer although the proxy was paused in between. -/
def exchangeEvents : List ProxyEvent :=
  [.ready [0x30], .send ⟨[0, 1, 2, 3, 4], rfl⟩ [7],
    .poll ⟨true, true, false, true, true⟩, .processControl, .processReply 0, .processRequest 0,
    .receive 0, .command (bytesOf "PAUSE"), .respond 0 [8],
    .poll ⟨false, true, true, true, true⟩, .processControl, .processReply 0, .processRequest 0,
    .command (bytesOf "RESUME"),
    .poll ⟨false, true, true, true, true⟩, .processControl, .processReply 0, .processRequest 0]

def exchangeRun : List (CommInterface × ProxyEvent) × CommInterface :=
  (exec next init exchangeEvents).getD ([], init)

theorem routed_exchange :
    Routed exchangeRun.2 ∧
      exchangeRun.2.returned = [⟨some 0, [0, 1, 2, 3, 4], [[], [8]]⟩] := by
  have hrun : exec next init exchangeEvents = some exchangeRun := by rfl
  exact ⟨(routed_run (run_of_exec hrun)).1, by rfl⟩

end CommInterface

end Fluffi.Shared.CommProxyWorker
