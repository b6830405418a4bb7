import Fluffi.Systems.Memory

/-! The mailbox a runner shares with its feeder: one mapping, cut into a half for
messages to the client and a half for messages to the server, and one FIFO for
each that announces a message. A half starts with the name of its FIFO, then come
the message type, the data length and the data. The two directions are one code
with different offsets, so the functions carry the direction as a parameter. -/

namespace Fluffi.SharedMem

open Systems Memory

def MAX_PATH : ℕ := 260

/-- The enumeration is unscoped and read back by a cast, so every 32-bit value can occur. -/
structure SharedMemMessageType where
  value : UInt32
  deriving DecidableEq, Repr

namespace SharedMemMessageType

def SHARED_MEM_MESSAGE_TERMINATE : SharedMemMessageType := ⟨0x1⟩
def SHARED_MEM_MESSAGE_FUZZ_FILENAME : SharedMemMessageType := ⟨0x2⟩
def SHARED_MEM_MESSAGE_FUZZ_DONE : SharedMemMessageType := ⟨0x3⟩
def SHARED_MEM_MESSAGE_TARGET_PID : SharedMemMessageType := ⟨0x5⟩
def SHARED_MEM_MESSAGE_READY_TO_FUZZ : SharedMemMessageType := ⟨0x6⟩
def SHARED_MEM_MESSAGE_TARGET_CRASHED : SharedMemMessageType := ⟨0x10⟩
def SHARED_MEM_MESSAGE_NOT_INITIALIZED : SharedMemMessageType := ⟨0x100⟩
def SHARED_MEM_MESSAGE_TRANSMISSION_TIMEOUT : SharedMemMessageType := ⟨0x101⟩
def SHARED_MEM_MESSAGE_ERROR : SharedMemMessageType := ⟨0x102⟩
def SHARED_MEM_MESSAGE_FEEDER_COULD_NOT_INITIALIZE : SharedMemMessageType := ⟨0x103⟩
def SHARED_MEM_MESSAGE_WAIT_INTERRUPTED : SharedMemMessageType := ⟨0x104⟩
def SHARED_MEM_MESSAGE_TRANSMISSION_ERROR : SharedMemMessageType := ⟨0x105⟩

end SharedMemMessageType

open SharedMemMessageType

/-- The data length is an `int`. -/
structure SharedMemMessage where
  m_messageType : SharedMemMessageType
  m_data : List UInt8
  size_lt : m_data.length < 2 ^ 31

namespace SharedMemMessage

def getDataSize (message : SharedMemMessage) : ℕ := message.m_data.length

/-- What a wait without a message leaves behind. -/
def empty (messageType : SharedMemMessageType) : SharedMemMessage :=
  ⟨messageType, [], Nat.two_pow_pos 31⟩

end SharedMemMessage

inductive Direction where
  | toClient
  | toServer
  deriving DecidableEq, Repr

/-- A mapped view, as one that passed the size check. -/
structure SharedMemIPC where
  m_pView : ℕ
  m_sharedMemorySize : ℕ
  size_ok : 2 * (MAX_PATH + 9) < m_sharedMemorySize

/-- The shared memory and, for each direction, the unread bytes of its FIFO. -/
structure Link where
  mem : Memory
  fifo : Direction → ℕ

namespace SharedMemIPC

/-- Where the half of a direction starts. -/
def half (ipc : SharedMemIPC) : Direction → ℕ
  | .toClient => ipc.m_pView
  | .toServer => ipc.m_pView + ipc.m_sharedMemorySize / 2

/-- The bytes behind a half's header. -/
def capacity (ipc : SharedMemIPC) : ℕ := ipc.m_sharedMemorySize / 2 - (MAX_PATH + 8)

/-- `memcpy_s` -/
def memcpy_s (mem : Memory) (a b : ℕ) (c : List UInt8) : Memory := mem.write a (c.take b)

/-! ### Setting up -/

/-- What the system answers while a server sets up its mailbox, and the names it made up. -/
structure ServerSetup where
  shm_open : Bool
  ftruncate : Bool
  mmap : Option ℕ
  nameOfFIFOForNewMessageForClient : List UInt8
  mkfifoForClient : Bool
  nameOfFIFOForNewMessageForServer : List UInt8
  mkfifoForServer : Bool
  openForClient : Bool
  openForServer : Bool

def initializeAsServer (m_sharedMemorySize : ℤ) (setup : ServerSetup) (mem : Memory) :
    Option (SharedMemIPC × Link) :=
  if h : m_sharedMemorySize ≤ 2 * (MAX_PATH + 9) then none
  else if !setup.shm_open || !setup.ftruncate then none
  else setup.mmap.bind fun m_pView =>
    let ipc : SharedMemIPC := ⟨m_pView, m_sharedMemorySize.toNat, by omega⟩
    let mem := mem.write m_pView (List.replicate ipc.m_sharedMemorySize 0)
    let mem := memcpy_s mem (ipc.half .toClient) MAX_PATH setup.nameOfFIFOForNewMessageForClient
    if !setup.mkfifoForClient then none
    else
      let mem := memcpy_s mem (ipc.half .toServer) MAX_PATH setup.nameOfFIFOForNewMessageForServer
      if !setup.mkfifoForServer || !setup.openForClient || !setup.openForServer then none
      else some (ipc, ⟨mem, fun _ => 0⟩)

variable (ipc : SharedMemIPC) (d : Direction) (message : SharedMemMessage)

/-! ### Sending -/

/-- Type and length, the first two statements of placing a message. -/
def placeHeader (mem : Memory) : Memory :=
  (mem.storeWord (ipc.half d + MAX_PATH) message.m_messageType.value).storeWord
    (ipc.half d + MAX_PATH + 4) (UInt32.ofNat message.getDataSize)

def placeMessage (mem : Memory) : Bool × Memory :=
  let mem := ipc.placeHeader d message mem
  if message.getDataSize = 0 then (true, mem)
  else if message.getDataSize ≥ ipc.capacity then (false, mem)
  else (true, memcpy_s mem (ipc.half d + MAX_PATH + 8) ipc.capacity message.m_data)

def placeMessageForClient : Memory → Bool × Memory := ipc.placeMessage .toClient message

def placeMessageForServer : Memory → Bool × Memory := ipc.placeMessage .toServer message

/-- `written` is whether the kernel took the byte that announces the message. -/
def sendMessage (link : Link) (written : Bool) : Bool × Link :=
  let placed := ipc.placeMessage d message link.mem
  if placed.1 && written then
    (true, ⟨placed.2, Function.update link.fifo d (link.fifo d + 1)⟩)
  else (false, ⟨placed.2, link.fifo⟩)

def sendMessageToClient : Link → Bool → Bool × Link := ipc.sendMessage .toClient message

def sendMessageToServer : Link → Bool → Bool × Link := ipc.sendMessage .toServer message

end SharedMemIPC

/-! ### Waiting -/

inductive Errno where
  | EINTR
  | other
  deriving DecidableEq, Repr

/-- What the system does to a wait: the errors `pselect` returns with, one after
the other, and whether the interrupt pipe (when one is passed) is readable. -/
structure WaitCall where
  errors : List Errno
  interrupt : Option Bool

namespace WaitCall

/-- The retry loop around `pselect`: signals are ignored, another error ends the wait. -/
def failed : List Errno → Bool
  | [] => false
  | .EINTR :: errors => failed errors
  | .other :: _ => true

def interrupted (call : WaitCall) : Bool := call.interrupt.getD false

end WaitCall

namespace SharedMemIPC

variable (ipc : SharedMemIPC) (d : Direction)

/-- `replaceDataWith`; the length is passed as an `int`, and allocating a
negative number of bytes throws. -/
def replaceDataWith (mem : Memory) (messageType : SharedMemMessageType) (data : ℕ)
    (dataLength : UInt32) : Option SharedMemMessage :=
  if h : dataLength.toNat < 2 ^ 31 then
    some ⟨messageType, mem.read data dataLength.toNat, by simpa using h⟩
  else none

/-- `none` when the wait throws. -/
def waitForNewMessage (link : Link) (call : WaitCall) : Option (Bool × SharedMemMessage) × Link :=
  if WaitCall.failed call.errors then
    (some (false, .empty SHARED_MEM_MESSAGE_TRANSMISSION_ERROR), link)
  else if !call.interrupted && link.fifo d == 0 then
    (some (false, .empty SHARED_MEM_MESSAGE_TRANSMISSION_TIMEOUT), link)
  else if call.interrupted then
    (some (false, .empty SHARED_MEM_MESSAGE_WAIT_INTERRUPTED), link)
  else
    let messageType := link.mem.loadWord (ipc.half d + MAX_PATH)
    let dataLength := link.mem.loadWord (ipc.half d + MAX_PATH + 4)
    ((replaceDataWith link.mem ⟨messageType⟩ (ipc.half d + MAX_PATH + 8) dataLength).map
      (fun message => (true, message)), ⟨link.mem, Function.update link.fifo d 0⟩)

def waitForNewMessageToClient : Link → WaitCall → Option (Bool × SharedMemMessage) × Link :=
  ipc.waitForNewMessage .toClient

def waitForNewMessageToServer : Link → WaitCall → Option (Bool × SharedMemMessage) × Link :=
  ipc.waitForNewMessage .toServer

/-- One call of one of the parties. -/
inductive Call where
  | send (d : Direction) (message : SharedMemMessage) (written : Bool)
  | wait (d : Direction) (call : WaitCall)

def Call.direction : Call → Direction
  | .send d _ _ => d
  | .wait d _ => d

def step (link : Link) : Call → Link
  | .send d message written => (ipc.sendMessage d message link written).2
  | .wait d call => (ipc.waitForNewMessage d link call).2

/-- The link after a sequence of calls of both parties. -/
def steps : Link → List Call → Link := List.foldl ipc.step

end SharedMemIPC

end Fluffi.SharedMem
