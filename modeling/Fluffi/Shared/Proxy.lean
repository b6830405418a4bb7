import Fluffi.Systems.Run
import Fluffi.Shared.Files

/-! The proxy between the clients of an agent and its communication workers. Both
of its sockets are ROUTERs, so whom a message goes to is a matter of the frames in
front of it, which the proxy and the workers push and pop by hand. A queue holds the
workers that wait for a request. -/

namespace Fluffi.Shared.CommProxyWorker

open Systems

/-! ### Frames -/

/-- The frames of a multipart message, and which request it carries or answers: its
number in the order in which the clients sent. No code reads the number. -/
structure Message where
  request : Option ℕ
  frames : List Bytes
  deriving DecidableEq, Repr

/-- The bytes of a text. -/
def bytesOf (s : String) : Bytes := s.toList.map fun c => UInt8.ofNat c.toNat

def READY : Bytes := bytesOf "READY"

/-- An identity that a ROUTER makes up: its first byte is zero. -/
structure ClientIdentity where
  bytes : Bytes
  assigned : bytes.head? = some 0
  deriving DecidableEq, Repr

theorem ClientIdentity.ne_READY (c : ClientIdentity) : c.bytes ≠ READY := by
  intro h
  have hassigned := c.assigned
  rw [h] at hassigned
  revert hassigned
  decide

/-- A ROUTER puts the identity of the sender in front of what it receives. -/
def routerRecv (identity : Bytes) (frames : List Bytes) : List Bytes := identity :: frames

/-- A REQ socket puts an empty frame in front of what it sends. -/
def reqSend (frames : List Bytes) : List Bytes := [] :: frames

/-- It takes that frame off what it receives, and discards a message without it. -/
def reqRecv : List Bytes → Option (List Bytes)
  | [] :: frames => some frames
  | _ => none

/-- `CommProxyWorker::wrap` -/
def wrap (frames : List Bytes) (address delim : Bytes) : List Bytes := address :: delim :: frames

/-- `CommProxyWorker::unwrap`; it throws if there is no frame. -/
def unwrap : List Bytes → Option (Bytes × List Bytes)
  | [] => none
  | [addr] => some (addr, [])
  | addr :: frame :: frames =>
    if frame.length = 0 then some (addr, frames) else some (addr, frame :: frames)

/-! ### The interface of an agent -/

/-- The state of the proxy loop. -/
inductive Activity
  | active | paused | terminated
  deriving DecidableEq, Repr

/-- Where a round of the loop is. -/
inductive Point
  | poll | control | reply | request
  deriving DecidableEq, Repr

/-- What the two calls of `zmq::poll` have found in this round. -/
structure Flags where
  frontendIn : Bool
  backendIn : Bool
  controlIn : Bool
  frontendOut : Bool
  backendOut : Bool
  deriving DecidableEq, Repr

/-- What the proxy has given to the frontend for a client. -/
structure Reply where
  request : Option ℕ
  client : Bytes
  frames : List Bytes
  deriving DecidableEq, Repr

/-- Proxy, sockets and workers. A worker is known by its identity, which `CommWorker` makes
of its number. Messages that wait for a worker and messages in its handler are listed
with it. -/
structure CommInterface where
  state : Activity
  point : Point
  flags : Flags
  m_worker_queue : List Bytes
  frontend : List Message
  backend : List Message
  control : List Bytes
  toWorkers : List (Bytes × Message)
  handling : List (Bytes × Message)
  /-- The workers that have sent READY, and those of them whose READY the proxy has read. -/
  started : List Bytes
  registered : List Bytes
  /-- All requests with their clients, which worker each was given to, what the workers
  have answered, and what the clients got. -/
  requests : List (ClientIdentity × Bytes)
  handed : List (Option ℕ × Bytes)
  answers : List (Option ℕ × Bytes)
  returned : List Reply
  deriving DecidableEq, Repr

inductive ProxyEvent
  /-- A client sends a request. -/
  | send (client : ClientIdentity) (payload : Bytes)
  | command (text : Bytes)
  /-- A worker connects and sends READY. -/
  | ready (worker : Bytes)
  /-- A worker gets one of the messages that wait for it. -/
  | receive (i : ℕ)
  /-- A worker sends what its handler made of the request. -/
  | respond (i : ℕ) (response : Bytes)
  /-- The steps of a round. A ROUTER takes the messages of its peers in turn, so any of
  those that wait may be the next. -/
  | poll (flags : Flags)
  | processControl
  | processReply (i : ℕ)
  | processRequest (i : ℕ)
  deriving DecidableEq, Repr

namespace CommInterface

def init : CommInterface where
  state := .active
  point := .poll
  flags := ⟨false, false, false, false, false⟩
  m_worker_queue := []
  frontend := []
  backend := []
  control := []
  toWorkers := []
  handling := []
  started := []
  registered := []
  requests := []
  handed := []
  answers := []
  returned := []

/-- The state after a control command; any other command exits the process. -/
def commanded (text : Bytes) : Option Activity :=
  if text = bytesOf "PAUSE" then some .paused
  else if text = bytesOf "RESUME" then some .active
  else if text = bytesOf "TERMINATE" then some .terminated
  else none

/-- The backend ROUTER sends: the first frame is the identity of a worker, and messages
for identities that it does not know are dropped. -/
def sendBackend (s : CommInterface) (m : Message) : CommInterface :=
  match m.frames with
  | [] => s
  | address :: frames =>
    if address ∈ s.started then
      { s with
        toWorkers := s.toWorkers ++ [(address, ⟨m.request, frames⟩)]
        handed := s.handed ++ [(m.request, address)] }
    else s

/-- The frontend ROUTER sends to the client that the first frame names. -/
def sendFrontend (s : CommInterface) (m : Message) : CommInterface :=
  match m.frames with
  | [] => s
  | address :: frames => { s with returned := s.returned ++ [⟨m.request, address, frames⟩] }

/-- The reply branch. -/
def reply (s : CommInterface) (m : Message) (address : Bytes) (frames : List Bytes) :
    CommInterface :=
  let s := { s with m_worker_queue := s.m_worker_queue ++ [address] }
  if frames.head? = some READY then { s with registered := s.registered ++ [address] }
  else s.sendFrontend ⟨m.request, frames⟩

def next (s : CommInterface) : ProxyEvent → Option CommInterface
  | .send client payload => some { s with
      frontend := s.frontend ++
        [⟨some s.requests.length, routerRecv client.bytes (reqSend [payload])⟩]
      requests := s.requests ++ [(client, payload)] }
  | .command text => some { s with control := s.control ++ [text] }
  | .ready worker =>
    if worker ∈ s.started then none
    else some { s with
      started := s.started ++ [worker]
      backend := s.backend ++ [⟨none, routerRecv worker (reqSend [READY])⟩] }
  | .receive i =>
    match s.toWorkers[i]? with
    | none => none
    | some (worker, m) =>
      -- `workerMain` is in `recv` only while its handler is not at work.
      if worker ∈ s.handling.map Prod.fst then none
      else
        let s := { s with toWorkers := s.toWorkers.eraseIdx i }
        match reqRecv m.frames with
        | none => some s
        -- `remove` takes the last frame, which is what the handler gets.
        | some mrequest => some { s with
            handling := s.handling ++ [(worker, ⟨m.request, mrequest.dropLast⟩)] }
  | .respond i response =>
    match s.handling[i]? with
    | none => none
    | some (worker, m) => some { s with
        handling := s.handling.eraseIdx i
        backend := s.backend ++
          [⟨m.request, routerRecv worker (reqSend (m.frames ++ [response]))⟩]
        answers := s.answers ++ [(m.request, response)] }
  | .poll flags =>
    if s.point = .poll ∧ s.state ≠ .terminated ∧ (flags.frontendIn → s.frontend ≠ []) ∧
        (flags.backendIn → s.backend ≠ []) ∧ (flags.controlIn → s.control ≠ []) then
      some { s with flags := flags, point := .control }
    else none
  | .processControl =>
    if s.point ≠ .control then none
    else if s.flags.controlIn then
      match s.control with
      | [] => none
      | text :: control => (commanded text).map fun state =>
          { s with state := state, control := control, point := .reply }
    else some { s with point := .reply }
  | .processReply i =>
    if s.point ≠ .reply then none
    else if s.state = .active ∧ s.flags.backendIn ∧ s.flags.frontendOut then
      match s.backend[i]? with
      | none => none
      | some m => (unwrap m.frames).map fun (address, frames) =>
          { reply { s with backend := s.backend.eraseIdx i } m address frames with
            point := .request }
    else some { s with point := .request }
  | .processRequest i =>
    if s.point ≠ .request then none
    else if s.state = .active ∧ s.flags.frontendIn ∧ s.flags.backendOut then
      match s.m_worker_queue with
      -- No worker: the message stays at the frontend.
      | [] => some { s with point := .poll }
      | nextworker :: queue =>
        match s.frontend[i]? with
        | none => none
        | some m => some
            { sendBackend { s with frontend := s.frontend.eraseIdx i }
                ⟨m.request, wrap m.frames nextworker []⟩ with
              m_worker_queue := queue, point := .poll }
    else some { s with point := .poll }

end CommInterface

end Fluffi.Shared.CommProxyWorker
