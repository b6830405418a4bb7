import Fluffi.Systems.Run
import Mathlib.Data.List.Nodup
import Mathlib.Data.Int.Notation
import Mathlib.Logic.Function.Basic

/-! Requests over cached sockets. A worker thread keeps one REQ socket for each
destination and timeout. Replies may come long after the call that waited for them
has given up, and the socket would be there to receive them. -/

namespace Fluffi.Shared

open Systems

/-! ### Sockets -/

/-- A REQ socket strictly alternates between sending and receiving. -/
inductive ReqSocket
  | readyToSend | awaitsReply | closed
  deriving DecidableEq, Repr

/-- Destination and timeout. -/
abbrev SocketIdentifier := String × ℤ

/-- The socket cache, and all sockets of the thread by number. -/
structure WorkerThreadState where
  m_zeroMQSockets : List (SocketIdentifier × ℕ)
  sockets : ℕ → ReqSocket
  nextSocket : ℕ

namespace WorkerThreadState

def empty : WorkerThreadState := ⟨[], fun _ => .closed, 0⟩

def clearSocketFor (w : WorkerThreadState) (socketIdentifier : SocketIdentifier) :
    WorkerThreadState :=
  match w.m_zeroMQSockets.lookup socketIdentifier with
  | some sock => { w with
      m_zeroMQSockets := w.m_zeroMQSockets.filter fun entry => entry.1 ≠ socketIdentifier
      sockets := Function.update w.sockets sock .closed }
  | none => w

def clearSocketCache (w : WorkerThreadState) : WorkerThreadState :=
  { w with
    m_zeroMQSockets := []
    sockets := fun sock =>
      if sock ∈ w.m_zeroMQSockets.map Prod.snd then .closed else w.sockets sock }

/-- `getSocketFor`; `resetDue` if the last reset of the cache is long enough ago. -/
def getSocketFor (w : WorkerThreadState) (resetDue : Bool) (socketIdentifier : SocketIdentifier) :
    WorkerThreadState × ℕ :=
  let w := if resetDue then w.clearSocketCache else w
  match w.m_zeroMQSockets.lookup socketIdentifier with
  | some sock => (w, sock)
  | none =>
    ({ m_zeroMQSockets := w.m_zeroMQSockets ++ [(socketIdentifier, w.nextSocket)]
       sockets := Function.update w.sockets w.nextSocket .readyToSend
       nextSocket := w.nextSocket + 1 }, w.nextSocket)

end WorkerThreadState

/-! ### Calls -/

variable {Req Resp : Type*}

/-- A request on its way, or the peer's reply on its way back to the socket. -/
structure Packet (Req Resp : Type*) where
  sock : ℕ
  destinationHAP : String
  call : ℕ
  req : Req
  reply : Option Resp

/-- Where `sendReqAndRecvResp` is. The process exits where a socket throws. -/
inductive CallPhase (Req : Type*)
  | idle
  | sending (socketIdentifier : SocketIdentifier) (sock : ℕ) (req : Req)
  | receiving (socketIdentifier : SocketIdentifier) (sock : ℕ) (call : ℕ) (req : Req)
  | exited

/-- A call that returned true, and the packet that it parsed. -/
structure Answered (Req Resp : Type*) where
  destinationHAP : String
  call : ℕ
  req : Req
  resp : Resp
  packet : Packet Req Resp

/-- The call parsed the peer's reply to its own request. -/
def Answered.IsOwn (a : Answered Req Resp) : Prop :=
  a.packet.call = a.call ∧ a.packet.req = a.req ∧ a.packet.destinationHAP = a.destinationHAP ∧
    a.packet.reply = some a.resp

structure CommState (Req Resp : Type*) where
  worker : WorkerThreadState
  phase : CallPhase Req
  inFlight : List (Packet Req Resp)
  nextCall : ℕ
  answered : List (Answered Req Resp)

inductive CommEvent (Req Resp : Type*)
  | sendReqAndRecvResp (req : Req) (socketIdentifier : SocketIdentifier) (resetDue : Bool)
  | send
  | sendTimeout
  | peerReplies (i : ℕ) (reply : Resp)
  | recv (i : ℕ)
  | recvTimeout
  | error

namespace CommState

def start : CommState Req Resp := ⟨.empty, .idle, [], 0, []⟩

def next (s : CommState Req Resp) : CommEvent Req Resp → Option (CommState Req Resp)
  | .sendReqAndRecvResp req socketIdentifier resetDue =>
    match s.phase with
    | .idle =>
      let (worker, sock) := s.worker.getSocketFor resetDue socketIdentifier
      some { s with worker := worker, phase := .sending socketIdentifier sock req }
    | _ => none
  | .send =>
    match s.phase with
    | .sending socketIdentifier sock req =>
      if s.worker.sockets sock = .readyToSend then some { s with
        worker := { s.worker with
          sockets := Function.update s.worker.sockets sock .awaitsReply }
        phase := .receiving socketIdentifier sock s.nextCall req
        inFlight := s.inFlight ++ [⟨sock, socketIdentifier.1, s.nextCall, req, none⟩]
        nextCall := s.nextCall + 1 }
      else some { s with phase := .exited }
    | _ => none
  | .sendTimeout =>
    match s.phase with
    | .sending socketIdentifier _ _ =>
      some { s with worker := s.worker.clearSocketFor socketIdentifier, phase := .idle }
    | _ => none
  -- Any peer answers a request that it has not answered, however late.
  | .peerReplies i reply =>
    match s.inFlight[i]? with
    | some packet =>
      if packet.reply.isNone then
        some { s with inFlight := s.inFlight.set i { packet with reply := some reply } }
      else none
    | none => none
  -- The socket delivers a reply that came back to it.
  | .recv i =>
    match s.phase, s.inFlight[i]? with
    | .receiving socketIdentifier sock call req, some packet =>
      if s.worker.sockets sock = .awaitsReply then
        match packet.reply with
        | some resp =>
          if packet.sock = sock then some { s with
            worker := { s.worker with
              sockets := Function.update s.worker.sockets sock .readyToSend }
            phase := .idle
            inFlight := s.inFlight.eraseIdx i
            answered := s.answered ++ [⟨socketIdentifier.1, call, req, resp, packet⟩] }
          else none
        | none => none
      else some { s with phase := .exited }
    | _, _ => none
  | .recvTimeout =>
    match s.phase with
    | .receiving socketIdentifier _ _ _ =>
      some { s with worker := s.worker.clearSocketFor socketIdentifier, phase := .idle }
    | _ => none
  | .error =>
    match s.phase with
    | .idle => none
    | _ => some { s with phase := .exited }

/-- Every cached socket can send. -/
def CacheReady (s : CommState Req Resp) : Prop :=
  ∀ entry ∈ s.worker.m_zeroMQSockets, s.worker.sockets entry.2 = .readyToSend

end CommState

/-! ### The cache -/

namespace WorkerThreadState

/-- The cached sockets are different ones, and all but the busy one can send. -/
structure CacheInv (w : WorkerThreadState) (busy : Option ℕ) : Prop where
  nodup : (w.m_zeroMQSockets.map Prod.snd).Nodup
  lt : ∀ entry ∈ w.m_zeroMQSockets, entry.2 < w.nextSocket
  ready : ∀ entry ∈ w.m_zeroMQSockets, some entry.2 ≠ busy →
    w.sockets entry.2 = .readyToSend

theorem mem_of_lookup {cache : List (SocketIdentifier × ℕ)} {id : SocketIdentifier} {sock : ℕ}
    (h : cache.lookup id = some sock) : (id, sock) ∈ cache := by
  obtain ⟨l₁, l₂, rfl, -⟩ := List.lookup_eq_some_iff.mp h
  simp

/-- The cleared socket is closed, and the rest of the cache can send. -/
theorem CacheInv.clearSocketFor {w : WorkerThreadState} {id : SocketIdentifier} {sock : ℕ}
    {busy : Option ℕ} (hw : w.CacheInv busy) (hbusy : busy = none ∨ busy = some sock)
    (hlookup : w.m_zeroMQSockets.lookup id = some sock) :
    (w.clearSocketFor id).CacheInv none ∧
      (w.clearSocketFor id).sockets = Function.update w.sockets sock .closed ∧
      (w.clearSocketFor id).nextSocket = w.nextSocket := by
  unfold WorkerThreadState.clearSocketFor
  rw [hlookup]
  refine ⟨⟨?_, ?_, ?_⟩, rfl, rfl⟩
  · exact hw.nodup.sublist (List.filter_sublist.map _)
  · exact fun entry hentry => hw.lt entry (List.mem_of_mem_filter hentry)
  · intro entry hentry _
    obtain ⟨hmem, hkey⟩ := List.mem_filter.mp hentry
    have hne : entry.2 ≠ sock := by
      rintro rfl
      have heq := List.inj_on_of_nodup_map hw.nodup hmem (mem_of_lookup hlookup) rfl
      rw [heq] at hkey
      simp at hkey
    dsimp only
    rw [Function.update_of_ne hne]
    refine hw.ready entry hmem ?_
    rcases hbusy with rfl | rfl
    · exact Option.some_ne_none _
    · exact fun h => hne (Option.some.inj h)

theorem clearSocketCache_inv (w : WorkerThreadState) : w.clearSocketCache.CacheInv none where
  nodup := List.nodup_nil
  lt _ hentry := absurd hentry List.not_mem_nil
  ready _ hentry _ := absurd hentry List.not_mem_nil

/-- A new socket can send, and none that is cached is the same. -/
theorem CacheInv.newSocket {w : WorkerThreadState} (hw : w.CacheInv none)
    (id : SocketIdentifier) :
    CacheInv
      { m_zeroMQSockets := w.m_zeroMQSockets ++ [(id, w.nextSocket)]
        sockets := Function.update w.sockets w.nextSocket .readyToSend
        nextSocket := w.nextSocket + 1 } none := by
  have hfresh : ∀ entry ∈ w.m_zeroMQSockets, entry.2 ≠ w.nextSocket := fun entry hentry =>
    Nat.ne_of_lt (hw.lt entry hentry)
  refine ⟨?_, ?_, ?_⟩
  · rw [List.map_append, List.nodup_append]
    refine ⟨hw.nodup, List.nodup_singleton _, ?_⟩
    intro a ha b hb
    obtain ⟨entry, hentry, rfl⟩ := List.mem_map.mp ha
    obtain rfl : b = w.nextSocket := by simpa using hb
    exact hfresh entry hentry
  · rw [List.forall_mem_append, List.forall_mem_singleton]
    exact ⟨fun entry hentry => Nat.lt_succ_of_lt (hw.lt entry hentry), Nat.lt_succ_self _⟩
  · rw [List.forall_mem_append, List.forall_mem_singleton]
    refine ⟨fun entry hentry hbusy => ?_, fun _ => Function.update_self _ _ _⟩
    dsimp only
    rw [Function.update_of_ne (hfresh entry hentry)]
    exact hw.ready entry hentry hbusy

/-- The reset before the lookup keeps the invariant and what is closed. -/
theorem CacheInv.reset {w : WorkerThreadState} (hw : w.CacheInv none) (resetDue : Bool) :
    (if resetDue then w.clearSocketCache else w).CacheInv none ∧
      (if resetDue then w.clearSocketCache else w).nextSocket = w.nextSocket ∧
      ∀ sock, w.sockets sock = .closed →
        (if resetDue then w.clearSocketCache else w).sockets sock = .closed := by
  cases resetDue with
  | false => exact ⟨hw, rfl, fun _ h => h⟩
  | true =>
    refine ⟨w.clearSocketCache_inv, rfl, fun sock h => ?_⟩
    simp [WorkerThreadState.clearSocketCache, h]

/-- The socket of a call is cached under its identifier and can send. What was closed
stays closed. -/
theorem CacheInv.getSocketFor {w : WorkerThreadState} (hw : w.CacheInv none) (resetDue : Bool)
    (id : SocketIdentifier) :
    (w.getSocketFor resetDue id).1.CacheInv none ∧
      (w.getSocketFor resetDue id).1.m_zeroMQSockets.lookup id =
        some (w.getSocketFor resetDue id).2 ∧
      w.nextSocket ≤ (w.getSocketFor resetDue id).1.nextSocket ∧
      ∀ sock < w.nextSocket, w.sockets sock = .closed →
        (w.getSocketFor resetDue id).1.sockets sock = .closed := by
  obtain ⟨hinv, hnext, hclosed⟩ := hw.reset resetDue
  unfold WorkerThreadState.getSocketFor
  dsimp only
  generalize (if resetDue then w.clearSocketCache else w) = w' at hinv hnext hclosed
  cases hlookup : w'.m_zeroMQSockets.lookup id with
  | some sock => exact ⟨hinv, hlookup, Nat.le_of_eq hnext.symm, fun sock _ h => hclosed sock h⟩
  | none =>
    refine ⟨hinv.newSocket id, by simp [List.lookup_append, hlookup], ?_, fun sock hlt h => ?_⟩
    · exact Nat.le_succ_of_le (Nat.le_of_eq hnext.symm)
    · dsimp only
      rw [Function.update_of_ne (by omega)]
      exact hclosed sock h

end WorkerThreadState

/-! ### Whole runs -/

/-- The socket on which a reply is awaited. -/
def CallPhase.busy : CallPhase Req → Option ℕ
  | .receiving _ sock _ _ => some sock
  | _ => none

/-- The packet belongs to the call that awaits its reply. -/
def CallPhase.Awaits (phase : CallPhase Req) (packet : Packet Req Resp) : Prop :=
  ∃ id : SocketIdentifier, phase = .receiving id packet.sock packet.call packet.req ∧
    packet.destinationHAP = id.1

namespace CommState

/-- What holds while the process lives. What is on its way belongs to the call that waits
for it, or its socket is closed. -/
structure Live (s : CommState Req Resp) : Prop where
  cache : s.worker.CacheInv s.phase.busy
  sending : ∀ id sock req, s.phase = .sending id sock req →
    s.worker.m_zeroMQSockets.lookup id = some sock
  receiving : ∀ id sock call req, s.phase = .receiving id sock call req →
    s.worker.m_zeroMQSockets.lookup id = some sock ∧ s.worker.sockets sock = .awaitsReply
  flight : ∀ packet ∈ s.inFlight, packet.sock < s.worker.nextSocket ∧
    packet.call < s.nextCall ∧ (s.worker.sockets packet.sock = .closed ∨ s.phase.Awaits packet)
  calls : (s.inFlight.map Packet.call).Nodup

structure Inv (s : CommState Req Resp) : Prop where
  own : ∀ a ∈ s.answered, a.IsOwn
  live : s.phase = .exited ∨ s.Live

theorem start_inv : (start : CommState Req Resp).Inv where
  own _ ha := absurd ha List.not_mem_nil
  live := .inr {
    cache := ⟨List.nodup_nil, fun _ h => absurd h List.not_mem_nil,
      fun _ h => absurd h List.not_mem_nil⟩
    sending := by rintro _ _ _ ⟨⟩
    receiving := by rintro _ _ _ _ ⟨⟩
    flight := fun _ h => absurd h List.not_mem_nil
    calls := List.nodup_nil }

/-- Between two calls everything on its way belongs to a closed socket. -/
theorem Live.closed {s : CommState Req Resp} (hs : s.Live) (hphase : s.phase.busy = none)
    {packet : Packet Req Resp} (h : packet ∈ s.inFlight) :
    s.worker.sockets packet.sock = .closed := by
  rcases (hs.flight packet h).2.2 with hclosed | ⟨id, hawaits, -⟩
  · exact hclosed
  · rw [hawaits] at hphase
    cases hphase

/-- A call that gives up closes its socket. -/
theorem Live.giveUp {s : CommState Req Resp} (hs : s.Live) {id : SocketIdentifier} {sock : ℕ}
    (hlookup : s.worker.m_zeroMQSockets.lookup id = some sock)
    (hbusy : s.phase.busy = none ∨ s.phase.busy = some sock) :
    Live { s with worker := s.worker.clearSocketFor id, phase := .idle } := by
  obtain ⟨hcache, hsockets, hnext⟩ := hs.cache.clearSocketFor hbusy hlookup
  refine ⟨hcache, by rintro _ _ _ ⟨⟩, by rintro _ _ _ _ ⟨⟩, fun packet hpacket => ?_, hs.calls⟩
  obtain ⟨hlt, hcall, hflight⟩ := hs.flight packet hpacket
  refine ⟨hnext ▸ hlt, hcall, .inl ?_⟩
  dsimp only
  rw [hsockets]
  by_cases hsock : packet.sock = sock
  · rw [hsock, Function.update_self]
  · rw [Function.update_of_ne hsock]
    rcases hflight with hclosed | ⟨_, hawaits, -⟩
    · exact hclosed
    · rw [hawaits] at hbusy
      rcases hbusy with hbusy | hbusy
      · cases hbusy
      · exact absurd (Option.some.inj hbusy) hsock

theorem Live.begin {s : CommState Req Resp} (hs : s.Live) (hphase : s.phase = .idle) (req : Req)
    (id : SocketIdentifier) (resetDue : Bool) :
    Live { s with
      worker := (s.worker.getSocketFor resetDue id).1
      phase := .sending id (s.worker.getSocketFor resetDue id).2 req } := by
  have hbusy : s.phase.busy = none := by rw [hphase]; rfl
  have hcache := hs.cache
  rw [hbusy] at hcache
  obtain ⟨hcache, hlookup, hle, hclosed⟩ := hcache.getSocketFor resetDue id
  refine ⟨hcache, ?_, by rintro _ _ _ _ ⟨⟩, fun packet hpacket => ?_, hs.calls⟩
  · rintro _ _ _ ⟨⟩
    exact hlookup
  · obtain ⟨hlt, hcall, -⟩ := hs.flight packet hpacket
    exact ⟨Nat.lt_of_lt_of_le hlt hle, hcall, .inl (hclosed _ hlt (hs.closed hbusy hpacket))⟩

theorem Live.send {s : CommState Req Resp} (hs : s.Live) {id : SocketIdentifier} {sock : ℕ}
    {req : Req} (hphase : s.phase = .sending id sock req)
    (hready : s.worker.sockets sock = .readyToSend) :
    Live { s with
      worker := { s.worker with
        sockets := Function.update s.worker.sockets sock .awaitsReply }
      phase := .receiving id sock s.nextCall req
      inFlight := s.inFlight ++ [⟨sock, id.1, s.nextCall, req, none⟩]
      nextCall := s.nextCall + 1 } := by
  have hbusy : s.phase.busy = none := by rw [hphase]; rfl
  have hlookup := hs.sending _ _ _ hphase
  refine ⟨⟨hs.cache.nodup, hs.cache.lt, fun entry hentry hne => ?_⟩, by rintro _ _ _ ⟨⟩, ?_, ?_, ?_⟩
  · have hsock : entry.2 ≠ sock := fun h => hne (congrArg some h)
    dsimp only
    rw [Function.update_of_ne hsock]
    exact hs.cache.ready entry hentry (by rw [hbusy]; exact Option.some_ne_none _)
  · rintro _ _ _ _ ⟨⟩
    exact ⟨hlookup, Function.update_self _ _ _⟩
  · intro packet hpacket
    rcases List.mem_append.mp hpacket with hpacket | hpacket
    · have hclosed := hs.closed hbusy hpacket
      have hsock : packet.sock ≠ sock := by
        rintro rfl
        rw [hclosed] at hready
        cases hready
      obtain ⟨hlt, hcall, -⟩ := hs.flight packet hpacket
      refine ⟨hlt, Nat.lt_succ_of_lt hcall, .inl ?_⟩
      dsimp only
      rw [Function.update_of_ne hsock, hclosed]
    · rw [List.mem_singleton.mp hpacket]
      exact ⟨hs.cache.lt _ (WorkerThreadState.mem_of_lookup hlookup), Nat.lt_succ_self _,
        .inr ⟨id, rfl, rfl⟩⟩
  · rw [List.map_append, List.nodup_append]
    refine ⟨hs.calls, List.nodup_singleton _, ?_⟩
    intro a ha b hb
    obtain ⟨packet, hpacket, rfl⟩ := List.mem_map.mp ha
    obtain rfl : b = s.nextCall := by simpa using hb
    exact Nat.ne_of_lt (hs.flight packet hpacket).2.1

theorem map_set_of_eq {α β : Type*} {f : α → β} {l : List α} {i : ℕ} {a b : α}
    (h : l[i]? = some a) (hf : f b = f a) : (l.set i b).map f = l.map f := by
  refine List.ext_getElem? fun j => ?_
  rw [List.getElem?_map, List.getElem?_map, List.getElem?_set]
  split_ifs with hij hlt
  · subst hij
    rw [h, Option.map_some, Option.map_some, hf]
  · subst hij
    rw [List.getElem?_eq_none (Nat.le_of_not_lt hlt)]
  · rfl

theorem Live.peerReplies {s : CommState Req Resp} (hs : s.Live) {i : ℕ}
    {packet : Packet Req Resp} (h : s.inFlight[i]? = some packet) (reply : Resp) :
    Live { s with inFlight := s.inFlight.set i { packet with reply := some reply } } := by
  refine ⟨hs.cache, hs.sending, hs.receiving, fun other hother => ?_, ?_⟩
  · rcases List.mem_or_eq_of_mem_set hother with hother | rfl
    · exact hs.flight other hother
    · exact hs.flight packet (List.mem_of_getElem? h)
  · have hmap : (s.inFlight.set i { packet with reply := some reply }).map Packet.call =
        s.inFlight.map Packet.call := map_set_of_eq h rfl
    exact hmap ▸ hs.calls

/-- What the waiting socket delivers is the reply to the request of the call. -/
theorem Live.recv_own {s : CommState Req Resp} (hs : s.Live) {id : SocketIdentifier}
    {sock call : ℕ} {req : Req} (hphase : s.phase = .receiving id sock call req) {i : ℕ}
    {packet : Packet Req Resp} (h : s.inFlight[i]? = some packet) (hsock : packet.sock = sock) :
    packet.call = call ∧ packet.req = req ∧ packet.destinationHAP = id.1 := by
  obtain ⟨-, hawaits⟩ := hs.receiving _ _ _ _ hphase
  rcases (hs.flight packet (List.mem_of_getElem? h)).2.2 with hclosed | ⟨_, hpacket, hdest⟩
  · rw [hsock, hawaits] at hclosed
    cases hclosed
  · rw [hphase] at hpacket
    cases hpacket
    exact ⟨rfl, rfl, hdest⟩

theorem Live.recv {s : CommState Req Resp} (hs : s.Live) {id : SocketIdentifier}
    {sock call : ℕ} {req : Req} (hphase : s.phase = .receiving id sock call req) {i : ℕ}
    {packet : Packet Req Resp} (h : s.inFlight[i]? = some packet) (hsock : packet.sock = sock)
    (answered : List (Answered Req Resp)) :
    Live { s with
      worker := { s.worker with
        sockets := Function.update s.worker.sockets sock .readyToSend }
      phase := .idle
      inFlight := s.inFlight.eraseIdx i
      answered := answered } := by
  have hbusy : s.phase.busy = some sock := by rw [hphase]; rfl
  obtain ⟨hcall, -, -⟩ := hs.recv_own hphase h hsock
  obtain ⟨-, hawaits⟩ := hs.receiving _ _ _ _ hphase
  refine ⟨⟨hs.cache.nodup, hs.cache.lt, fun entry hentry _ => ?_⟩, by rintro _ _ _ ⟨⟩,
    by rintro _ _ _ _ ⟨⟩, fun other hother => ?_, ?_⟩
  · dsimp only
    by_cases hentrySock : entry.2 = sock
    · rw [hentrySock, Function.update_self]
    · rw [Function.update_of_ne hentrySock]
      refine hs.cache.ready entry hentry ?_
      rw [hbusy]
      exact fun h => hentrySock (Option.some.inj h)
  · obtain ⟨j, hji, hj⟩ := List.mem_eraseIdx_iff_getElem?.mp hother
    obtain ⟨hlt, hcallLt, hflight⟩ := hs.flight other (List.mem_of_getElem? hj)
    refine ⟨hlt, hcallLt, .inl ?_⟩
    dsimp only
    rcases hflight with hclosed | ⟨_, hother, -⟩
    · have hotherSock : other.sock ≠ sock := by
        rintro heq
        rw [heq, hawaits] at hclosed
        cases hclosed
      rw [Function.update_of_ne hotherSock, hclosed]
    · -- Two packets on their way never belong to the same call.
      rw [hphase] at hother
      cases hother
      have hlength : j < (s.inFlight.map Packet.call).length := by
        rw [List.length_map]
        exact (List.getElem?_eq_some_iff.mp hj).1
      have hsame : (s.inFlight.map Packet.call)[j]? = (s.inFlight.map Packet.call)[i]? := by
        rw [List.getElem?_map, List.getElem?_map, hj, h, Option.map_some, Option.map_some, hcall]
      exact absurd ((List.getElem?_inj hlength hs.calls).mp hsame) hji
  · exact hs.calls.sublist ((List.eraseIdx_sublist _ _).map _)

theorem Inv.live_of_phase {s : CommState Req Resp} (hs : s.Inv) {phase : CallPhase Req}
    (hphase : s.phase = phase) (hne : phase ≠ .exited) : s.Live :=
  hs.live.resolve_left (hphase ▸ hne)

theorem Inv.next {s t : CommState Req Resp} {e : CommEvent Req Resp} (hs : s.Inv)
    (h : s.next e = some t) : t.Inv := by
  cases e with
  | sendReqAndRecvResp req id resetDue =>
    simp only [CommState.next] at h
    split at h
    next hphase =>
      obtain rfl := Option.some.inj h
      exact ⟨hs.own, .inr ((hs.live_of_phase hphase (by rintro ⟨⟩)).begin hphase req id resetDue)⟩
    next => cases h
  | send =>
    simp only [CommState.next] at h
    split at h
    next id sock req hphase =>
      split_ifs at h with hready
      · obtain rfl := Option.some.inj h
        exact ⟨hs.own, .inr ((hs.live_of_phase hphase (by rintro ⟨⟩)).send hphase hready)⟩
      · obtain rfl := Option.some.inj h
        exact ⟨hs.own, .inl rfl⟩
    next => cases h
  | sendTimeout =>
    simp only [CommState.next] at h
    split at h
    next id sock req hphase =>
      obtain rfl := Option.some.inj h
      have hlive := hs.live_of_phase hphase (by rintro ⟨⟩)
      exact ⟨hs.own, .inr (hlive.giveUp (hlive.sending _ _ _ hphase) (.inl (by rw [hphase]; rfl)))⟩
    next => cases h
  | peerReplies i reply =>
    simp only [CommState.next] at h
    split at h
    next packet hpacket =>
      obtain ⟨-, h⟩ := Option.ite_none_right_eq_some.mp h
      obtain rfl := Option.some.inj h
      exact ⟨hs.own, hs.live.imp id fun hlive => hlive.peerReplies hpacket reply⟩
    next => cases h
  | recv i =>
    simp only [CommState.next] at h
    split at h
    next id sock call req packet hphase hpacket =>
      have hlive := hs.live_of_phase hphase (by rintro ⟨⟩)
      by_cases hawaits : s.worker.sockets sock = .awaitsReply
      · rw [if_pos hawaits] at h
        split at h
        next resp hreply =>
          obtain ⟨hsock, h⟩ := Option.ite_none_right_eq_some.mp h
          obtain rfl := Option.some.inj h
          refine ⟨fun a ha => ?_, .inr (hlive.recv hphase hpacket hsock _)⟩
          rcases List.mem_append.mp ha with ha | ha
          · exact hs.own a ha
          · obtain ⟨hcall, hreq, hdest⟩ := hlive.recv_own hphase hpacket hsock
            rw [List.mem_singleton.mp ha]
            exact ⟨hcall, hreq, hdest, hreply⟩
        next => cases h
      · rw [if_neg hawaits] at h
        obtain rfl := Option.some.inj h
        exact ⟨hs.own, .inl rfl⟩
    next => cases h
  | recvTimeout =>
    simp only [CommState.next] at h
    split at h
    next id sock call req hphase =>
      obtain rfl := Option.some.inj h
      have hlive := hs.live_of_phase hphase (by rintro ⟨⟩)
      exact ⟨hs.own, .inr (hlive.giveUp (hlive.receiving _ _ _ _ hphase).1
        (.inr (by rw [hphase]; rfl)))⟩
    next => cases h
  | error =>
    simp only [CommState.next] at h
    split at h
    · cases h
    · obtain rfl := Option.some.inj h
      exact ⟨hs.own, .inl rfl⟩

/-- Whatever times out and however late the peers reply, a call that returns true parsed the
peer's reply to its own request, and between two calls every cached socket can send. -/
theorem answered_own {s : CommState Req Resp}
    {tr : List (CommState Req Resp × CommEvent Req Resp)} (hr : Run next start tr s) :
    (∀ a ∈ s.answered, a.IsOwn) ∧ (s.phase = .idle → s.CacheReady) := by
  have hinv : s.Inv := hr.invariant start_inv fun hs hstep => hs.next hstep
  refine ⟨hinv.own, fun hphase entry hentry => ?_⟩
  have hlive := hinv.live_of_phase hphase (by rintro ⟨⟩)
  exact hlive.cache.ready entry hentry (by rw [hphase]; exact Option.some_ne_none _)

/-- The first call gives up, and the second to the same destination gets its own reply
although the first reply comes before it. -/
theorem answered_own_late : ∃ tr, ∃ s : CommState ℕ ℕ, Run next start tr s ∧
    s.answered.map Answered.resp = [20] ∧
    (∀ a ∈ s.answered, a.IsOwn) ∧ (s.phase = .idle → s.CacheReady) := by
  have hrun := run_of_exec (rfl : exec next (start : CommState ℕ ℕ)
    [.sendReqAndRecvResp 1 ("peer", 1000) false, .send, .recvTimeout,
      .sendReqAndRecvResp 2 ("peer", 1000) false, .send, .peerReplies 0 10, .peerReplies 1 20,
      .recv 1] = some (_, _))
  exact ⟨_, _, hrun, rfl, answered_own hrun⟩

end CommState

end Fluffi.Shared
