import Fluffi.Runner.Responses
import Fluffi.Systems.Clients

/-! The calls of the runner. A call that waits gets its response. Each call is made by the responses
to those before, and the first one only clears the queue; as long as the replies are clean, the
dialogue is to the runner as if each call was answered at once. -/

namespace Fluffi.Runner.Gdb.Dialogue

open Systems LineStream

variable {G α : Type*}

/-- A call that is answered at once. -/
def reply (answer : G → Line → List Line × G) (g : G) (command : Line) : List Line × G :=
  (outputs answer g (command.splitOn '\n'), stateAfter answer g (command.splitOn '\n' ++ [fluffi]))

/-- The dialogue with the calls of a client. A call that fails at the start is made again. -/
def nextOf (answer : G → Line → List Line × G) (client : Client Line (List Line) α)
    (s : Dialogue G) : Event → Option (Dialogue G)
  | .call command => match client.after s.responses with
    | .ask request _ => if command = request then next answer s (.call command) else none
    | .done _ => none
  | e => next answer s e

variable {answer : G → Line → List Line × G} {start s t : Dialogue G} {e : Event} {first : Line}
  {client : Client Line (List Line) α} {commands : List Line}

theorem replies_eq (g : G) (commands : List Line) :
    replies answer g commands = serveAll (reply answer) g commands := by
  induction commands generalizing g with
  | nil => rfl
  | cons command commands ih =>
    rw [replies, serveAll, ih]
    rfl

/-! ### A call returns -/

/-- GDB, the line reader, and the reader of the queue. -/
def Event.Works : Event → Prop
  | .gdb | .queue | .pop => True
  | _ => False

/-- What they have to do, if nothing more is written: each line for GDB is answered, and each line
of an answer is queued and read. -/
def work (answer : G → Line → List Line × G) (s : Dialogue G) : ℕ :=
  s.m_gdbOutputQueue.length + 2 * s.output.length +
    2 * (outputs answer s.gdb (ended s.m_ostreamToGdb)).length + (ended s.m_ostreamToGdb).length

theorem ended_eq_cons {text rest : Line} {c : Char}
    (h : text.dropWhile (· ≠ '\n') = c :: rest) :
    ended text = text.takeWhile (· ≠ '\n') :: ended rest := by
  have hline : '\n' ∉ text.takeWhile (· ≠ '\n') := fun hmem => by
    simpa using List.mem_takeWhile_imp hmem
  obtain rfl := eq_newline_of_dropWhile h
  have hsplit : text.splitOn '\n' = text.takeWhile (· ≠ '\n') :: rest.splitOn '\n' := by
    rw [← List.splitOn_append_cons_self_of_not_mem hline, ← h, List.takeWhile_append_dropWhile]
  rw [ended, hsplit, List.dropLast_cons_of_ne_nil (List.splitOn_ne_nil '\n' rest), ended]

theorem work_lt (he : e.Works) (hstep : next answer s e = some t) :
    work answer t < work answer s := by
  cases e with
  | call | write | terminate | interrupt | clear => exact he.elim
  | gdb =>
    simp only [next] at hstep
    split at hstep
    case h_1 => cases hstep
    case h_2 c rest hrest =>
      obtain rfl := Option.some.inj hstep
      have hended : ended s.m_ostreamToGdb =
          s.m_ostreamToGdb.takeWhile (· ≠ '\n') :: ended rest := ended_eq_cons hrest
      rw [work, work, hended, outputs, step]
      simp only [List.length_append, List.length_cons]
      omega
  | queue =>
    simp only [next] at hstep
    split at hstep
    case h_1 => cases hstep
    case h_2 line output houtput =>
      obtain rfl := Option.some.inj hstep
      rw [work, work, houtput]
      simp only [List.length_append, List.length_cons, List.length_nil]
      omega
  | pop =>
    simp only [next] at hstep
    split at hstep
    case h_1 responseSS line queue hplace hqueue =>
      obtain rfl := Option.some.inj hstep
      have hpop : work answer (s.pop responseSS line queue) + 1 = work answer s := by
        unfold pop
        split
        · rw [work, work, hqueue]
          simp only [List.length_cons]
          omega
        · rw [work, work, hqueue]
          simp only [List.length_cons]
          omega
      omega
    case h_2 => cases hstep

/-- If nobody has anything to do, all that was printed is read. -/
theorem nothing_left (hgdb : next answer s .gdb = none) (hqueue : next answer s .queue = none)
    {responseSS : List Line} (hplace : s.place = .waiting responseSS)
    (hpop : next answer s .pop = none) :
    s.m_gdbOutputQueue = [] ∧ s.output = [] ∧ ended s.m_ostreamToGdb = [] := by
  refine ⟨?_, ?_, ?_⟩
  · cases hq : s.m_gdbOutputQueue with
    | nil => rfl
    | cons line queue => simp [next, hplace, hq] at hpop
  · cases ho : s.output with
    | nil => rfl
    | cons line output => simp [next, ho] at hqueue
  · cases hd : s.m_ostreamToGdb.dropWhile (· ≠ '\n') with
    | nil =>
      have hline : '\n' ∉ s.m_ostreamToGdb := fun hmem => by
        simpa using List.dropWhile_eq_nil_iff.mp hd _ hmem
      rw [ended, List.splitOn_eq_singleton hline]
      rfl
    | cons c rest =>
      simp only [next] at hgdb
      rw [hd] at hgdb
      cases hgdb

/-- As long as a call waits, its response can go on: what ends it is not read yet. -/
theorem waiting_goes_on (hfluffi : Complains answer) (hongoing : Ongoing answer start s)
    {responseSS : List Line} (hplace : s.place = .waiting responseSS) :
    ∃ e t, e.Works ∧ next answer s e = some t := by
  by_contra hstuck
  have hnone : ∀ e : Event, e.Works → next answer s e = none := by
    intro e he
    rw [Option.eq_none_iff_forall_not_mem]
    exact fun t ht => hstuck ⟨e, t, he, ht⟩
  obtain ⟨hqueue, houtput, hended⟩ :=
    nothing_left (hnone .gdb trivial) (hnone .queue trivial) hplace (hnone .pop trivial)
  obtain ⟨processed, cleared, taken, part, current, hf⟩ := hongoing
  obtain ⟨rfl, -, hcount⟩ : part = [] ∧ current = responseSS ∧
      s.sent.length = s.responses.length + 1 := by
    have hfits := hf.fits
    rwa [Fits, hplace] at hfits
  have hsent : s.sent ≠ [] := by
    intro hnil
    rw [hnil] at hcount
    cases hcount
  obtain ⟨rs, g, -, hlength, hends, hstream⟩ := hf.due hfluffi hsent
  rw [hqueue, houtput, hended] at hstream
  -- each reply that is read to its end gives a response
  have htaken : taken = Systems.ended rs := by
    have htail : outputs answer g (ended []) = [] := rfl
    rw [htail] at hstream
    simpa [outputs] using hstream
  have hle := length_le_countP_ended hends
  rw [← htaken, hf.cut.countP, hlength, hcount] at hle
  omega

/-- A call that waits gets its response after finitely many steps: as long as it waits, GDB, the
line reader or the reader of the queue can go on, and they cannot go on forever. -/
theorem call_returns (hfluffi : Complains answer) (hstart : start.Start)
    {tr : List (Dialogue G × Event)} (hr : Run (next answer) start tr s)
    {responseSS : List Line} (hplace : s.place = .waiting responseSS) :
    (∃ e t, e.Works ∧ next answer s e = some t) ∧
      ∀ tr t, Run (next answer) s tr t → (∀ p ∈ tr, p.2.Works) → tr.length ≤ work answer s := by
  refine ⟨waiting_goes_on hfluffi (hstart.ongoing_run hr) hplace, fun tr t htr hworks => ?_⟩
  have hsum : tr.length + work answer t ≤ work answer s := by
    induction htr with
    | nil => simp
    | @snoc u v tr e _ hstep ih =>
      rw [List.forall_mem_append, List.forall_mem_singleton] at hworks
      have hlt := work_lt hworks.2 hstep
      have hbefore := ih hworks.1
      rw [List.length_append, List.length_singleton]
      omega
  omega

/-- A call that is written, and nothing more has happened. -/
def oneCall : Option (List (Dialogue Unit × Event) × Dialogue Unit) :=
  exec (next echo) started [.call "i r".toList, .write]

theorem call_returns_echo : ∃ h : oneCall.isSome = true, ∃ e t,
    e.Works ∧ next echo (oneCall.get h).2 e = some t :=
  ⟨rfl, (call_returns (fun _ => ⟨_, rfl, rfl⟩) ⟨rfl, rfl, rfl, rfl, rfl⟩
    (run_of_exec (Option.some_get (x := oneCall) rfl).symm) rfl).1⟩

/-! ### What is due to a client -/

/-- How GDB is behind the first call, which comes after all that was on its way at the start. -/
def cleared (answer : G → Line → List Line × G) (start : Dialogue G) (first : Line) :
    List Line × G :=
  let (lines, g) := reply answer start.gdb (start.m_ostreamToGdb ++ first)
  (start.output ++ lines, g)

theorem due_cons (h : s.sent = first :: commands) :
    due answer start s = (cleared answer start first).1.drop s.skipped ::
      serveAll (reply answer) (cleared answer start first).2 commands := by
  rw [due, h]
  simp only [replies, replies_eq]
  rfl

/-- All that GDB prints for the calls of a client, if each is answered at once, ends no response
early. -/
structure Clean (answer : G → Line → List Line × G) (start : Dialogue G) (first : Line)
    (client : Client Line (List Line) α) : Prop where
  opening : ∀ line ∈ (cleared answer start first).1, endsResponse line = false
  others : ∀ lines ∈ client.replies (reply answer) (cleared answer start first).2,
    ∀ line ∈ lines, endsResponse line = false

/-- What the client sends, if each call is answered at once. -/
def plan (answer : G → Line → List Line × G) (start : Dialogue G) (first : Line)
    (client : Client Line (List Line) α) : List Line :=
  first :: client.requests (reply answer) (cleared answer start first).2

theorem Clean.due (h : Clean answer start first client)
    (hsent : s.sent <+: plan answer start first client) :
    ∀ lines ∈ due answer start s, ∀ line ∈ lines, endsResponse line = false := by
  cases hs : s.sent with
  | nil =>
    rw [Dialogue.due, hs]
    simp
  | cons command commands =>
    rw [hs] at hsent
    obtain ⟨rfl, hrest⟩ := List.cons_prefix_cons.mp hsent
    rw [due_cons hs, List.forall_mem_cons]
    refine ⟨fun line hline => h.opening line (List.mem_of_mem_drop hline), fun lines hlines => ?_⟩
    exact h.others lines ((serveAll_mono hrest).subset hlines)

/-! ### The invariant -/

/-- What is sent, and what is being sent, is the first part of the plan. -/
structure Planned (answer : G → Line → List Line × G) (start : Dialogue G) (first : Line)
    (client : Client Line (List Line) α) (s : Dialogue G) : Prop where
  sent : s.sent <+: plan answer start first client
  sending : ∀ written rest, s.place = .sending written rest →
    s.sent ++ [written ++ rest] <+: plan answer start first client

/-- The client, which does not look at what it is told first. -/
def clearing (first : Line) (client : Client Line (List Line) α) : Client Line (List Line) α :=
  .ask first fun _ => client

/-- All calls have their responses, and these are the replies that are due. -/
theorem responses_eq (hfluffi : Complains answer) (hongoing : Ongoing answer start s)
    (hclean : Clean answer start first client)
    (hsent : s.sent <+: plan answer start first client) :
    s.responses = (due answer start s).take s.responses.length ∧ s.place ≠ .LEFTOVER := by
  obtain ⟨processed, cleared, taken, part, current, hf⟩ := hongoing
  exact hf.inStep hfluffi fun lines hlines => hclean.due hsent lines (List.mem_of_mem_take hlines)

theorem length_due (h : s.sent = first :: commands) :
    (due answer start s).length = commands.length + 1 := by
  rw [due_cons h, List.length_cons, length_serveAll]

/-- Between two calls, the next request is the next one of the plan. -/
theorem Planned.next_request (h : Planned answer start first client s)
    (hfluffi : Complains answer) (hongoing : Ongoing answer start s)
    (hclean : Clean answer start first client) (hplace : s.place = .idle)
    {request : Line} {go : List Line → Client Line (List Line) α}
    (hafter : (clearing first client).after s.responses = .ask request go) :
    s.sent ++ [request] <+: plan answer start first client := by
  have hcount : s.sent.length = s.responses.length := by
    obtain ⟨processed, cleared, taken, part, current, hf⟩ := hongoing
    have hfits := hf.fits
    rw [Fits, hplace] at hfits
    exact hfits.2.2
  obtain ⟨hresponses, -⟩ := responses_eq hfluffi hongoing hclean h.sent
  have hprefix := h.sent
  cases hs : s.sent with
  | nil =>
    rw [hs, List.length_nil] at hcount
    rw [List.eq_nil_of_length_eq_zero hcount.symm] at hafter
    obtain ⟨rfl, -⟩ := Client.ask.inj hafter
    exact List.cons_prefix_cons.mpr ⟨rfl, List.nil_prefix⟩
  | cons command commands =>
    rw [hs] at hprefix
    obtain ⟨rfl, hrest⟩ := List.cons_prefix_cons.mp hprefix
    rw [hs, List.length_cons] at hcount
    have hlength : (due answer start s).length = commands.length + 1 := length_due hs
    rw [← hcount, ← hlength, List.take_length, due_cons hs] at hresponses
    rw [hresponses] at hafter
    exact List.cons_prefix_cons.mpr ⟨rfl, Client.next_request hrest hafter⟩

theorem Planned.call (h : Planned answer start first client s) {command : Line}
    (hcommand : s.sent ++ [command] <+: plan answer start first client) :
    Planned answer start first client (s.call command) := by
  unfold Dialogue.call
  split
  · exact h
  split
  · refine ⟨h.sent, fun written rest hsending => ?_⟩
    dsimp only at hsending
    split at hsending <;> cases hsending
  · refine ⟨h.sent, fun written rest hsending => ?_⟩
    obtain ⟨rfl, rfl⟩ := Conversing.sending.inj hsending
    exact hcommand

theorem Planned.write (h : Planned answer start first client s) {written rest : Line}
    (hplace : s.place = .sending written rest) :
    Planned answer start first client (s.write written rest) := by
  have hsending := h.sending written rest hplace
  unfold Dialogue.write
  split
  · exact ⟨h.sent, fun _ _ hplace => by cases hplace⟩
  dsimp only
  split
  case isTrue hdrop =>
    -- the last chunk: it ends the command
    have htake : rest.take 1000 = rest := by
      rw [← List.append_nil (rest.take 1000), ← hdrop, List.take_append_drop]
    refine ⟨?_, fun _ _ hplace => by cases hplace⟩
    rw [htake]
    exact hsending
  case isFalse =>
    refine ⟨h.sent, fun written' rest' hplace' => ?_⟩
    obtain ⟨rfl, rfl⟩ := Conversing.sending.inj hplace'
    rw [List.append_assoc, List.take_append_drop]
    exact hsending

/-- A step that sends nothing. -/
theorem Planned.of_sent (h : Planned answer start first client s) (hsent : t.sent = s.sent)
    (hplace : ∀ written rest, t.place = .sending written rest → s.place = .sending written rest) :
    Planned answer start first client t := by
  refine ⟨hsent ▸ h.sent, fun written rest hsending => ?_⟩
  rw [hsent]
  exact h.sending written rest (hplace written rest hsending)

theorem Planned.next (h : Planned answer start first client s) (hfluffi : Complains answer)
    (hongoing : Ongoing answer start s) (hclean : Clean answer start first client)
    (hstep : nextOf answer (clearing first client) s e = some t) :
    Planned answer start first client t := by
  cases e with
  | call command =>
    simp only [nextOf] at hstep
    split at hstep
    case h_1 request go hafter =>
      split at hstep
      case isTrue hrequest =>
        obtain rfl := hrequest
        simp only [Dialogue.next] at hstep
        split at hstep
        case h_1 hplace =>
          obtain rfl := Option.some.inj hstep
          exact h.call (h.next_request hfluffi hongoing hclean hplace hafter)
        case h_2 => cases hstep
      case isFalse => cases hstep
    case h_2 => cases hstep
  | write =>
    simp only [nextOf, Dialogue.next] at hstep
    split at hstep
    case h_1 hplace =>
      obtain rfl := Option.some.inj hstep
      exact h.write hplace
    case h_2 => cases hstep
  | gdb =>
    simp only [nextOf, Dialogue.next] at hstep
    split at hstep
    case h_1 => cases hstep
    case h_2 =>
      obtain rfl := Option.some.inj hstep
      exact h.of_sent rfl fun _ _ => id
  | queue =>
    simp only [nextOf, Dialogue.next] at hstep
    split at hstep
    case h_1 => cases hstep
    case h_2 =>
      obtain rfl := Option.some.inj hstep
      exact h.of_sent rfl fun _ _ => id
  | pop =>
    simp only [nextOf, Dialogue.next] at hstep
    split at hstep
    case h_1 =>
      obtain rfl := Option.some.inj hstep
      unfold pop
      split <;> exact h.of_sent rfl fun _ _ hplace => by cases hplace
    case h_2 => cases hstep
  | terminate =>
    obtain rfl := Option.some.inj hstep
    exact h.of_sent rfl fun _ _ => id
  | interrupt =>
    simp only [nextOf, Dialogue.next] at hstep
    split at hstep
    case h_1 =>
      split at hstep
      · obtain rfl := Option.some.inj hstep
        exact h.of_sent rfl fun _ _ hplace => by cases hplace
      · cases hstep
    case h_2 => cases hstep
  | clear =>
    simp only [nextOf, Dialogue.next] at hstep
    split at hstep
    case h_1 =>
      obtain rfl := Option.some.inj hstep
      exact h.of_sent rfl fun _ _ hplace => by cases hplace
    case h_2 => cases hstep

/-! ### Any run -/

end Fluffi.Runner.Gdb.Dialogue
