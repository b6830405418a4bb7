import Fluffi.Systems.Occurrences
import Fluffi.Systems.Run

/-! Packets that go to a server one after the other. Behind a packet its answer is awaited on a
socket that does not block, so nothing new is a `recv` that fails with `EAGAIN`. That the server
has closed the connection is a `recv` of no bytes, which leaves `errno` as it was; and `errno` is
looked at first. -/

namespace Fluffi.TCPFeeder

open Systems Occurrences

abbrev Bytes := List UInt8

abbrev Errno := ℕ

def EINTR : Errno := 4

def EAGAIN : Errno := 11

def EWOULDBLOCK : Errno := EAGAIN

inductive WHAT_TODO_AFTER_SEND where
  | CONTINUE
  | WAIT_FOR_ANY_RESPONSE
  | WAIT_FOR_BYTE_SEQUENCE
  | WAIT_N_MILLISECONDS
  deriving DecidableEq, Repr

structure Packet where
  m_packetBytes : Bytes
  m_waitForBytes : Bytes
  m_whatTodo : WHAT_TODO_AFTER_SEND
  deriving DecidableEq, Repr

/-- `std::search` returns the end of what it searches where it finds nothing, and where there is
nothing to search. -/
def search (fullresponse waitForBytes : Bytes) : ℕ :=
  (firstIndex waitForBytes fullresponse).getD fullresponse.length

/-- What a packet waits for has come. -/
def Packet.isAnswered (packet : Packet) (fullresponse : Bytes) : Bool :=
  packet.m_whatTodo = .WAIT_FOR_ANY_RESPONSE ∧ fullresponse.length > 0 ∨
    packet.m_whatTodo = .WAIT_FOR_BYTE_SEQUENCE ∧
      search fullresponse packet.m_waitForBytes ≠ fullresponse.length

/-- A packet that waits for an answer. -/
def Packet.Waits (packet : Packet) : Prop :=
  packet.m_whatTodo = .WAIT_FOR_ANY_RESPONSE ∨ packet.m_whatTodo = .WAIT_FOR_BYTE_SEQUENCE

/-! ### The loop -/

/-- Where the loop over the packets is. Between two calls of `recv` it sleeps. -/
inductive Point where
  | sending (packet : Packet) (later : List Packet)
  | receiving (packet : Packet) (later : List Packet) (fullresponse : Bytes)
  | polling (packet : Packet) (later : List Packet) (fullresponse : Bytes)
  | pausing (packet : Packet) (later : List Packet)
  | returned (success : Bool)
  deriving DecidableEq, Repr

/-- Behind the sending of a packet; `next` is the head of the loop. -/
def Point.afterSend (next : Point) (packet : Packet) (later : List Packet) : Point :=
  match packet.m_whatTodo with
  | .CONTINUE => next
  | .WAIT_FOR_ANY_RESPONSE | .WAIT_FOR_BYTE_SEQUENCE => .receiving packet later []
  | .WAIT_N_MILLISECONDS => .pausing packet later

/-- The head of the loop. A packet without bytes is not sent. -/
def sendPackets : List Packet → Point
  | [] => .returned true
  | packet :: later =>
    if packet.m_packetBytes.length > 0 then .sending packet later
    else (sendPackets later).afterSend packet later

/-- What a system call comes to. -/
inductive SysCall where
  | send (iResult : Except Errno ℕ)
  | recv (iResult : Except Errno Bytes)
  | sleep (interrupted : Bool)

structure Connection where
  errno : Errno
  point : Point

/-- Where a `recv` without bytes leads. -/
def noBytes (errno : Errno) (closed : Bool) (packet : Packet) (later : List Packet)
    (fullresponse : Bytes) : Point :=
  if errno = EAGAIN ∨ errno = EWOULDBLOCK then
    if packet.isAnswered fullresponse then sendPackets later
    else .polling packet later fullresponse
  else if closed then
    if later = [] then sendPackets later else .returned false
  else .returned false

/-- A successful call leaves `errno` as it is. -/
def Connection.next (c : Connection) : SysCall → Option Connection
  | .send iResult =>
    match c.point, iResult with
    | .sending _ _, .error errno => some ⟨errno, .returned false⟩
    | .sending packet later, .ok sent =>
      if sent ≤ packet.m_packetBytes.length then
        some ⟨c.errno, (sendPackets later).afterSend packet later⟩
      else none
    | _, _ => none
  | .recv iResult =>
    match c.point, iResult with
    | .receiving packet later fullresponse, .error errno =>
      some ⟨errno, noBytes errno false packet later fullresponse⟩
    | .receiving packet later fullresponse, .ok outbuf =>
      if outbuf = [] then some ⟨c.errno, noBytes c.errno true packet later fullresponse⟩
      else if outbuf.length ≤ 0x2000 then
        some ⟨c.errno, .receiving packet later (fullresponse ++ outbuf)⟩
      else none
    | _, _ => none
  | .sleep interrupted =>
    let errno := if interrupted then EINTR else c.errno
    match c.point with
    | .polling packet later fullresponse => some ⟨errno, .receiving packet later fullresponse⟩
    | .pausing _ later => some ⟨errno, sendPackets later⟩
    | _ => none

/-- What a step can do. -/
inductive Connection.Step : Connection → SysCall → Connection → Prop
  | sendFailed {errno errno' : Errno} {packet : Packet} {later : List Packet} :
      Step ⟨errno, .sending packet later⟩ (.send (.error errno')) ⟨errno', .returned false⟩
  | sent {errno : Errno} {packet : Packet} {later : List Packet} {sent : ℕ}
      (hsent : sent ≤ packet.m_packetBytes.length) :
      Step ⟨errno, .sending packet later⟩ (.send (.ok sent))
        ⟨errno, (sendPackets later).afterSend packet later⟩
  | recvFailed {errno errno' : Errno} {packet : Packet} {later : List Packet}
      {fullresponse : Bytes} :
      Step ⟨errno, .receiving packet later fullresponse⟩ (.recv (.error errno'))
        ⟨errno', noBytes errno' false packet later fullresponse⟩
  | closed {errno : Errno} {packet : Packet} {later : List Packet} {fullresponse : Bytes} :
      Step ⟨errno, .receiving packet later fullresponse⟩ (.recv (.ok []))
        ⟨errno, noBytes errno true packet later fullresponse⟩
  | got {errno : Errno} {packet : Packet} {later : List Packet} {fullresponse outbuf : Bytes}
      (hne : outbuf ≠ []) (hsize : outbuf.length ≤ 0x2000) :
      Step ⟨errno, .receiving packet later fullresponse⟩ (.recv (.ok outbuf))
        ⟨errno, .receiving packet later (fullresponse ++ outbuf)⟩
  | polled {errno : Errno} {packet : Packet} {later : List Packet} {fullresponse : Bytes}
      {interrupted : Bool} :
      Step ⟨errno, .polling packet later fullresponse⟩ (.sleep interrupted)
        ⟨if interrupted then EINTR else errno, .receiving packet later fullresponse⟩
  | paused {errno : Errno} {packet : Packet} {later : List Packet} {interrupted : Bool} :
      Step ⟨errno, .pausing packet later⟩ (.sleep interrupted)
        ⟨if interrupted then EINTR else errno, sendPackets later⟩

theorem Connection.step_of_next {c c' : Connection} {call : SysCall}
    (h : c.next call = some c') : Step c call c' := by
  obtain ⟨errno, point⟩ := c
  cases call with
  | send iResult =>
    cases point <;> cases iResult <;> simp only [next, reduceCtorEq, Option.some.injEq] at h
    case sending.error => exact h ▸ .sendFailed
    case sending.ok =>
      split at h
      next hsent => exact Option.some.inj h ▸ .sent hsent
      next => cases h
  | recv iResult =>
    cases point <;> cases iResult <;> simp only [next, reduceCtorEq, Option.some.injEq] at h
    case receiving.error => exact h ▸ .recvFailed
    case receiving.ok outbuf =>
      split_ifs at h with hempty hsize
      · obtain rfl := hempty
        exact Option.some.inj h ▸ .closed
      · exact Option.some.inj h ▸ .got hempty hsize
  | sleep interrupted =>
    cases point <;> simp only [next, reduceCtorEq, Option.some.injEq] at h
    case polling => exact h ▸ .polled
    case pausing => exact h ▸ .paused

/-- Nothing is done any more. -/
theorem Connection.next_of_returned {c c' : Connection} {call : SysCall}
    (h : c.point = .returned false ∨ c.point = .returned true) : c.next call ≠ some c' := by
  intro hs
  rcases h with h | h <;> cases Connection.step_of_next hs <;> cases h

theorem noBytes_cases (errno : Errno) (closed : Bool) (packet : Packet) (later : List Packet)
    (fullresponse : Bytes) :
    (errno = EAGAIN ∧ packet.isAnswered fullresponse = true ∧
        noBytes errno closed packet later fullresponse = sendPackets later) ∨
      (errno = EAGAIN ∧ packet.isAnswered fullresponse = false ∧
        noBytes errno closed packet later fullresponse = .polling packet later fullresponse) ∨
      (errno ≠ EAGAIN ∧ closed = true ∧ later = [] ∧
        noBytes errno closed packet later fullresponse = .returned true) ∨
      (errno ≠ EAGAIN ∧ (closed = true → later ≠ []) ∧
        noBytes errno closed packet later fullresponse = .returned false) := by
  simp only [noBytes, EWOULDBLOCK, or_self]
  by_cases hagain : errno = EAGAIN
  · cases hanswered : packet.isAnswered fullresponse <;> simp [hagain]
  · cases closed
    · simp [hagain]
    · by_cases hlast : later = []
      · simp [hagain, hlast, sendPackets]
      · simp [hagain, hlast]

/-! ### Packets that are not done -/

def Packet.isSent (packet : Packet) : Bool := packet.m_packetBytes.length > 0

namespace Point

/-- The packet the loop is at and those behind it. -/
def pending : Point → List Packet
  | sending packet later | receiving packet later _ | polling packet later _
  | pausing packet later => packet :: later
  | returned _ => []

/-- The packets whose sending is to come. -/
def unsent : Point → List Packet
  | sending packet later => packet :: later
  | receiving _ later _ | polling _ later _ | pausing _ later => later
  | returned _ => []

/-- What has come for the packet that has `n` packets behind it. -/
def responseAt : Point → ℕ → Bytes
  | receiving _ later fullresponse, n | polling _ later fullresponse, n =>
    if n = later.length then fullresponse else []
  | sending _ _, _ | pausing _ _, _ | returned _, _ => []

/-- A packet that is sent has bytes, and a pause is that of a packet that asks for one. -/
def Sound : Point → Prop
  | sending packet _ => packet.isSent = true
  | pausing packet _ => packet.m_whatTodo = .WAIT_N_MILLISECONDS
  | _ => True

/-- Where the loop goes on behind some packets that it only passes: nothing has come yet. -/
structure Begins (point : Point) (packets : List Packet) : Prop where
  passed : ∃ skipped, packets = skipped ++ point.pending ∧ ∀ packet ∈ skipped, ¬ packet.Waits
  unsent : point.unsent.filter Packet.isSent = packets.filter Packet.isSent
  responses : ∀ n, point.responseAt n = []
  sound : point.Sound

variable {point : Point} {packet : Packet} {later : List Packet}

theorem Begins.afterSend (h : point.Begins later) (packet : Packet) :
    (point.afterSend packet later).unsent.filter Packet.isSent = later.filter Packet.isSent ∧
      (∃ skipped, packet :: later = skipped ++ (point.afterSend packet later).pending ∧
        ∀ p ∈ skipped, ¬ p.Waits) ∧
      (∀ n, (point.afterSend packet later).responseAt n = []) ∧
      (point.afterSend packet later).Sound := by
  cases htodo : packet.m_whatTodo with
  | CONTINUE =>
    obtain ⟨skipped, hsplit, hskipped⟩ := h.passed
    have heq : point.afterSend packet later = point := by rw [Point.afterSend, htodo]
    rw [heq]
    refine ⟨h.unsent, ⟨packet :: skipped, ?_, ?_⟩, h.responses, h.sound⟩
    · rw [List.cons_append, ← hsplit]
    · rw [List.forall_mem_cons]
      exact ⟨by simp [Packet.Waits, htodo], hskipped⟩
  | WAIT_FOR_ANY_RESPONSE | WAIT_FOR_BYTE_SEQUENCE | WAIT_N_MILLISECONDS =>
    simp only [Point.afterSend, htodo]
    exact ⟨rfl, ⟨[], rfl, by simp⟩, by simp [responseAt], by simp [Sound, htodo]⟩

end Point

theorem sendPackets_begins (packets : List Packet) : (sendPackets packets).Begins packets := by
  induction packets with
  | nil => exact ⟨⟨[], rfl, by simp⟩, rfl, fun _ => rfl, trivial⟩
  | cons packet later ih =>
    rw [sendPackets]
    split
    next hsent => exact ⟨⟨[], rfl, by simp⟩, rfl, fun _ => rfl, decide_eq_true hsent⟩
    next hempty =>
      obtain ⟨hunsent, hpassed, hresponses, hsound⟩ := ih.afterSend packet
      refine ⟨hpassed, ?_, hresponses, hsound⟩
      rw [hunsent, List.filter_cons_of_neg]
      simpa [Packet.isSent] using hempty

theorem length_pending_sendPackets (packets : List Packet) :
    (sendPackets packets).pending.length ≤ packets.length := by
  obtain ⟨skipped, hsplit, -⟩ := (sendPackets_begins packets).passed
  have hlength := congrArg List.length hsplit
  rw [List.length_append] at hlength
  omega

/-! ### The history of a sequence -/

abbrev Trace := List (Connection × SysCall)

/-- The packets that have been sent. -/
def sentPackets (tr : Trace) : List Packet :=
  tr.flatMap fun step => match step.1.point, step.2 with
    | .sending packet _, .send (.ok _) => [packet]
    | _, _ => []

/-- What has come while the packet with `n` packets behind it was waiting. -/
def received (n : ℕ) (tr : Trace) : Bytes :=
  tr.flatMap fun step => match step.1.point, step.2 with
    | .receiving _ later _, .recv (.ok outbuf) => if n = later.length then outbuf else []
    | _, _ => []

theorem sentPackets_append (tr tr' : Trace) :
    sentPackets (tr ++ tr') = sentPackets tr ++ sentPackets tr' := List.flatMap_append

theorem received_append (n : ℕ) (tr tr' : Trace) :
    received n (tr ++ tr') = received n tr ++ received n tr' := List.flatMap_append

/-- The packets in front of where the loop is have been sent, and what they waited for has
come. -/
structure Progress (packets : List Packet) (tr : Trace) (point : Point) : Prop where
  suffix : point.pending <:+ packets
  sent : sentPackets tr ++ point.unsent.filter Packet.isSent = packets.filter Packet.isSent
  answered : ∀ before packet behind, packets = before ++ packet :: behind →
    point.pending.length ≤ behind.length → packet.Waits →
    packet.isAnswered (received behind.length tr) = true
  responses : ∀ n < point.pending.length, received n tr = point.responseAt n
  sound : point.Sound

variable {packets later : List Packet} {packet : Packet} {tr tr' : Trace} {point point' : Point}
  {c c' : Connection} {call : SysCall} {fullresponse : Bytes}

theorem Progress.start (packets : List Packet) : Progress packets [] (sendPackets packets) := by
  obtain ⟨⟨skipped, hsplit, hskipped⟩, hunsent, hresponses, hsound⟩ := sendPackets_begins packets
  refine ⟨⟨skipped, hsplit.symm⟩, hunsent, ?_, fun n _ => (hresponses n).symm, hsound⟩
  intro before packet behind hpackets hlength hwaits
  obtain ⟨between, rfl⟩ : (sendPackets packets).pending <:+ behind := by
    refine List.suffix_of_suffix_length_le ⟨skipped, hsplit.symm⟩ ?_ hlength
    exact ⟨before ++ [packet], by rw [hpackets, List.append_assoc, List.singleton_append]⟩
  have heq : skipped = before ++ packet :: between := by
    refine List.append_cancel_right (hsplit.symm.trans (hpackets.trans ?_))
    rw [List.append_assoc, List.cons_append]
  exact absurd hwaits (hskipped packet (by simp [heq]))

/-- Where the loop goes on from a packet: what it passes has got its answer. -/
theorem Progress.goesOn (h : Progress packets tr point) (skipped : List Packet)
    (hpassed : point.pending = skipped ++ point'.pending)
    (hskipped : ∀ before packet behind, skipped = before ++ packet :: behind → packet.Waits →
      packet.isAnswered (received (behind.length + point'.pending.length) tr') = true)
    (hsent : sentPackets tr' ++ point'.unsent.filter Packet.isSent =
      packets.filter Packet.isSent)
    (hold : ∀ n, point.pending.length ≤ n → received n tr' = received n tr)
    (hresponses : ∀ n < point'.pending.length, received n tr' = point'.responseAt n)
    (hsound : point'.Sound) : Progress packets tr' point' := by
  have hsuffix : point'.pending <:+ point.pending := ⟨skipped, hpassed.symm⟩
  refine ⟨hsuffix.trans h.suffix, hsent, ?_, hresponses, hsound⟩
  intro before packet behind hpackets hlength hwaits
  have hbehind : packet :: behind <:+ packets := ⟨before, hpackets.symm⟩
  by_cases hearlier : point.pending.length ≤ behind.length
  · rw [hold _ hearlier]
    exact h.answered before packet behind hpackets hearlier hwaits
  · obtain ⟨front, hfront⟩ : packet :: behind <:+ point.pending :=
      List.suffix_of_suffix_length_le hbehind h.suffix (by rw [List.length_cons]; omega)
    obtain ⟨between, rfl⟩ : point'.pending <:+ behind := by
      refine List.suffix_of_suffix_length_le hsuffix ?_ hlength
      exact ⟨front ++ [packet], by rw [← hfront, List.append_assoc, List.singleton_append]⟩
    rw [List.length_append]
    refine hskipped front packet between (List.append_cancel_right (hpassed.symm.trans ?_)) hwaits
    rw [← hfront, List.append_assoc, List.cons_append]

/-- The loop leaves a packet that waits for nothing more. -/
theorem Progress.leaves (h : Progress packets tr point) (hpending : point.pending = packet :: later)
    (hunsent : point.unsent = later) (hanswered : packet.Waits →
      packet.isAnswered (received later.length tr') = true)
    (hsent : sentPackets tr' = sentPackets tr)
    (hreceived : ∀ n, received n tr' = received n tr)
    (hnone : ∀ n < later.length, point.responseAt n = []) :
    Progress packets tr' (sendPackets later) := by
  obtain ⟨⟨skipped, hsplit, hskipped⟩, hfilter, hresponses, hsound⟩ := sendPackets_begins later
  have hlength : point.pending.length = later.length + 1 := by rw [hpending, List.length_cons]
  have hshorter := length_pending_sendPackets later
  refine h.goesOn (packet :: skipped) ?_ ?_ ?_ (fun n _ => hreceived n) ?_ hsound
  · rw [hpending, List.cons_append, ← hsplit]
  · intro before p behind hpackets hwaits
    cases before with
    | nil =>
      obtain ⟨rfl, rfl⟩ := List.cons.inj hpackets
      rw [← List.length_append, ← hsplit]
      exact hanswered hwaits
    | cons q before =>
      have hmem : p ∈ skipped := by simp [(List.cons.inj hpackets).2]
      exact absurd hwaits (hskipped p hmem)
  · rw [hsent, hfilter, ← hunsent, h.sent]
  · intro n hn
    rw [hreceived, h.responses n (by omega), hnone n (by omega), hresponses]

/-- A `recv` that brings nothing changes nothing of what has come. -/
theorem received_nothing {errno : Errno} (iResult : Except Errno Bytes)
    (hnothing : ∀ outbuf, iResult = .ok outbuf → outbuf = []) (n : ℕ) :
    received n (tr ++ [(⟨errno, point⟩, .recv iResult)]) = received n tr ∧
      sentPackets (tr ++ [(⟨errno, point⟩, .recv iResult)]) = sentPackets tr := by
  have hone : received n [(⟨errno, point⟩, .recv iResult)] = [] := by
    cases iResult with
    | error errno' => cases point <;> rfl
    | ok outbuf =>
      obtain rfl := hnothing outbuf rfl
      cases point <;> simp [received]
  have hsent : sentPackets [(⟨errno, point⟩, .recv iResult)] = [] := by
    cases point <;> rfl
  rw [received_append, sentPackets_append, hone, hsent, List.append_nil, List.append_nil]
  exact ⟨rfl, rfl⟩

/-- The loop stays at its packet. -/
theorem Progress.stays (h : Progress packets tr point) (hpending : point.pending = point'.pending)
    (hsent : sentPackets tr' ++ point'.unsent.filter Packet.isSent =
      packets.filter Packet.isSent)
    (hold : ∀ n, point.pending.length ≤ n → received n tr' = received n tr)
    (hresponses : ∀ n < point.pending.length, received n tr' = point'.responseAt n)
    (hsound : point'.Sound) : Progress packets tr' point' := by
  refine h.goesOn [] hpending (by simp) hsent hold ?_ hsound
  rwa [← hpending]

/-- A `recv` without bytes: the loop gives up, or ends because the connection is closed behind
the last packet, or all is as it should be. -/
theorem Progress.noBytes {errno errno' : Errno} {closed : Bool}
    (h : Progress packets tr (.receiving packet later fullresponse)) (iResult : Except Errno Bytes)
    (hnothing : ∀ outbuf, iResult = .ok outbuf → outbuf = []) :
    Progress packets (tr ++ [(⟨errno, .receiving packet later fullresponse⟩, .recv iResult)])
        (noBytes errno' closed packet later fullresponse) ∨
      TCPFeeder.noBytes errno' closed packet later fullresponse = .returned false ∨
      closed = true ∧ later = [] ∧ errno' ≠ EAGAIN ∧
        TCPFeeder.noBytes errno' closed packet later fullresponse = .returned true := by
  have hsame := fun n => @received_nothing tr (.receiving packet later fullresponse) errno
    iResult hnothing n
  have hresponse : received later.length tr = fullresponse := by
    rw [h.responses later.length (by simp [Point.pending])]
    simp [Point.responseAt]
  rcases noBytes_cases errno' closed packet later fullresponse with ⟨-, hanswered, heq⟩ |
    ⟨-, -, heq⟩ | ⟨hagain, hclosed, hlast, heq⟩ | ⟨-, -, heq⟩ <;> rw [heq]
  · refine .inl (h.leaves rfl rfl (fun _ => ?_) (hsame 0).2 (fun n => (hsame n).1) fun n hn => ?_)
    · rw [(hsame _).1, hresponse, hanswered]
    · exact if_neg hn.ne
  · refine .inl (h.stays rfl ?_ (fun n _ => (hsame n).1) (fun n hn => ?_) trivial)
    · rw [(hsame 0).2]
      exact h.sent
    · rw [(hsame n).1, h.responses n hn]
      rfl
  · exact .inr (.inr ⟨hclosed, hlast, hagain, rfl⟩)
  · exact .inr (.inl rfl)

/-- What a step leaves of the order. -/
theorem Progress.step (h : Progress packets tr c.point) (hs : c.next call = some c') :
    Progress packets (tr ++ [(c, call)]) c'.point ∨ sentPackets [(c, call)] = [] ∧
      (c'.point = .returned false ∨ c'.point = .returned true ∧ call = .recv (.ok []) ∧
        c.errno ≠ EAGAIN ∧ c.point.pending.length = 1 ∧ c.point.unsent = []) := by
  cases Connection.step_of_next hs with
  | sendFailed => exact .inr ⟨rfl, .inl rfl⟩
  | @sent errno packet later sent hsent =>
    obtain ⟨hunsent, ⟨skipped, hsplit, hskipped⟩, hresponses, hsound⟩ :=
      (sendPackets_begins later).afterSend packet
    have hreceived : ∀ n, received n (tr ++ [(⟨errno, .sending packet later⟩, .send (.ok sent))]) =
        received n tr := by
      intro n
      rw [received_append]
      exact List.append_nil _
    refine .inl (h.goesOn skipped hsplit ?_ ?_ (fun n _ => hreceived n) ?_ hsound)
    · intro before p behind hpackets hwaits
      exact absurd hwaits (hskipped p (by simp [hpackets]))
    · rw [hunsent, sentPackets_append, List.append_assoc, ← h.sent]
      rw [show Point.unsent (.sending packet later) = packet :: later from rfl,
        List.filter_cons_of_pos h.sound]
      rfl
    · intro n hn
      have hlength := congrArg List.length hsplit
      rw [List.length_append] at hlength
      have hpending : n < (Point.sending packet later).pending.length :=
        hlength ▸ Nat.lt_add_left _ hn
      rw [hreceived, h.responses n hpending, hresponses]
      rfl
  | @recvFailed errno errno' packet later fullresponse =>
    rcases h.noBytes (.error errno') (by simp) with hprogress | hfailed | ⟨hclosed, -⟩
    · exact .inl hprogress
    · exact .inr ⟨rfl, .inl hfailed⟩
    · cases hclosed
  | closed =>
    rcases h.noBytes (.ok []) (by simp) with hprogress | hfailed | ⟨-, rfl, hagain, heq⟩
    · exact .inl hprogress
    · exact .inr ⟨rfl, .inl hfailed⟩
    · exact .inr ⟨rfl, .inr ⟨heq, rfl, hagain, rfl, rfl⟩⟩
  | @got errno packet later fullresponse outbuf hne hsize =>
    refine .inl (h.stays rfl ?_ (fun n hn => ?_) (fun n hn => ?_) trivial)
    · rw [sentPackets_append]
      exact (congrArg (· ++ _) (List.append_nil _)).trans h.sent
    · have hother : n ≠ later.length := by
        simp only [Point.pending, List.length_cons] at hn
        omega
      rw [received_append]
      simp [received, hother]
    · rw [received_append, h.responses n hn]
      by_cases hcurrent : n = later.length <;> simp [received, Point.responseAt, hcurrent]
  | @polled errno packet later fullresponse interrupted =>
    have hreceived : ∀ n, received n (tr ++ [(⟨errno, .polling packet later fullresponse⟩,
        .sleep interrupted)]) = received n tr := by
      intro n
      rw [received_append]
      exact List.append_nil _
    refine .inl (h.stays rfl ?_ (fun n _ => hreceived n) (fun n hn => ?_) trivial)
    · rw [sentPackets_append]
      exact (congrArg (· ++ _) (List.append_nil _)).trans h.sent
    · rw [hreceived, h.responses n hn]
      rfl
  | @paused errno packet later interrupted =>
    have hreceived : ∀ n, received n (tr ++ [(⟨errno, .pausing packet later⟩,
        .sleep interrupted)]) = received n tr := by
      intro n
      rw [received_append]
      exact List.append_nil _
    have htodo : packet.m_whatTodo = .WAIT_N_MILLISECONDS := h.sound
    refine .inl (h.leaves rfl rfl (fun hwaits => ?_) ?_ hreceived fun _ _ => rfl)
    · simp [Packet.Waits, htodo] at hwaits
    · rw [sentPackets_append]
      exact List.append_nil _

/-! ### Whole sequences -/

/-- The last call has found the connection closed, and `errno` said nothing else. -/
def SeenClosed (tr : Trace) : Prop :=
  ∃ tr' c, tr = tr' ++ [(c, .recv (.ok []))] ∧ c.errno ≠ EAGAIN

theorem progress_of_run {errno : Errno}
    (hr : Run Connection.next ⟨errno, sendPackets packets⟩ tr c) :
    Progress packets tr c.point ∨ ∃ tr' c' call, tr = tr' ++ [(c', call)] ∧
      Progress packets tr' c'.point ∧ sentPackets [(c', call)] = [] ∧
      (c.point = .returned false ∨ c.point = .returned true ∧ call = .recv (.ok []) ∧
        c'.errno ≠ EAGAIN ∧ c'.point.pending.length = 1 ∧ c'.point.unsent = []) := by
  induction hr with
  | nil => exact .inl (.start packets)
  | @snoc t u tr call _ hs ih =>
    rcases ih with hprogress | ⟨_, _, _, _, _, _, hreturned⟩
    · exact (hprogress.step hs).imp_right fun hend => ⟨tr, t, call, rfl, hprogress, hend⟩
    · exact absurd hs (Connection.next_of_returned (hreturned.imp_right And.left))

/-- Each packet with bytes is sent once, in order. Whatever the loop does, the packets in front
of where it is have got the answers they wait for. And it returns true only behind the last
packet, whose answer has come too, unless the connection is closed by then. -/
theorem packets_in_order {errno : Errno}
    (hr : Run Connection.next ⟨errno, sendPackets packets⟩ tr c) :
    sentPackets tr <+: packets.filter Packet.isSent ∧
      (∀ pre c' call post, tr = pre ++ (c', call) :: post → ∀ before packet behind,
        packets = before ++ packet :: behind → c'.point.pending.length ≤ behind.length →
        packet.Waits → packet.isAnswered (received behind.length pre) = true) ∧
      (c.point = .returned true → sentPackets tr = packets.filter Packet.isSent ∧
        ∀ before packet behind, packets = before ++ packet :: behind → packet.Waits →
          packet.isAnswered (received behind.length tr) = true ∨
            behind = [] ∧ SeenClosed tr) := by
  refine ⟨?_, ?_, ?_⟩
  · rcases progress_of_run hr with hprogress | ⟨tr', c', call, rfl, hprogress, hnone, -⟩
    · exact ⟨_, hprogress.sent⟩
    · rw [sentPackets_append, hnone, List.append_nil]
      exact ⟨_, hprogress.sent⟩
  · rintro pre c' call post rfl before packet behind hpackets hlength hwaits
    obtain ⟨hpre, c'', hs, -⟩ := hr.middle
    rcases progress_of_run hpre with hprogress | ⟨_, _, _, _, _, _, hreturned⟩
    · exact hprogress.answered before packet behind hpackets hlength hwaits
    · exact absurd hs (Connection.next_of_returned (hreturned.imp_right And.left))
  · intro hreturned
    rcases progress_of_run hr with hprogress | ⟨tr', c', call, rfl, hprogress, hnone, hend⟩
    · have hsent := hprogress.sent
      rw [hreturned, Point.unsent, List.filter_nil, List.append_nil] at hsent
      refine ⟨hsent, fun before packet behind hpackets hwaits => .inl ?_⟩
      exact hprogress.answered before packet behind hpackets (by simp [hreturned, Point.pending])
        hwaits
    · rw [hreturned] at hend
      obtain ⟨-, rfl, hagain, hlength, hunsent⟩ := hend.resolve_left (by simp)
      have hsent := hprogress.sent
      rw [hunsent, List.filter_nil, List.append_nil] at hsent
      refine ⟨by rw [sentPackets_append, hnone, List.append_nil, hsent], ?_⟩
      intro before packet behind hpackets hwaits
      cases behind with
      | nil => exact .inr ⟨rfl, tr', c', rfl, hagain⟩
      | cons q behind =>
        left
        have hanswered := hprogress.answered before packet (q :: behind) hpackets
          (by rw [hlength, List.length_cons]; omega) hwaits
        obtain ⟨errno', point'⟩ := c'
        rwa [(received_nothing (.ok []) (by simp) _).1]

/-- A request that waits for anything, and one that waits for an `O`. -/
def twoPackets : List Packet :=
  [⟨[71], [], .WAIT_FOR_ANY_RESPONSE⟩, ⟨[72], [79], .WAIT_FOR_BYTE_SEQUENCE⟩]

/-- Each gets its answer, the second one in more bytes than it waits for. -/
def twoAnswers : List SysCall :=
  [.send (.ok 1), .recv (.error EAGAIN), .sleep false, .recv (.ok [1]), .recv (.error EAGAIN),
    .send (.ok 1), .recv (.ok [79, 75]), .recv (.error EAGAIN)]

def twoSent : Option (Trace × Connection) :=
  exec Connection.next ⟨0, sendPackets twoPackets⟩ twoAnswers

theorem packets_in_order_two :
    ∃ h : twoSent.isSome = true, (twoSent.get h).2.point = .returned true ∧
      sentPackets (twoSent.get h).1 = twoPackets :=
  ⟨rfl, rfl, ((packets_in_order (run_of_exec (Option.some_get (x := twoSent) rfl).symm)).2.2
    rfl).1⟩

end Fluffi.TCPFeeder
