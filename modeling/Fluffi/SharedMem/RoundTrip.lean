import Fluffi.SharedMem.Mailbox

/-! Messages through the mailbox. A call leaves the other half alone, what is placed is what is
read, and a message that is too long is refused. -/

namespace Fluffi.SharedMem

open Systems Memory
open SharedMemMessageType

namespace SharedMemIPC

variable {ipc : SharedMemIPC} {d : Direction} {link : Link} {message : SharedMemMessage} {x : ℕ}

/-! ### What a call leaves alone -/

theorem half_room : ipc.capacity + (MAX_PATH + 8) = ipc.m_sharedMemorySize / 2 := by
  have hs := ipc.size_ok
  simp only [capacity, MAX_PATH] at *
  omega

theorem capacity_pos : 0 < ipc.capacity := by
  have hs := ipc.size_ok
  simp only [capacity, MAX_PATH] at *
  omega

theorem placeHeader_outside {mem : Memory}
    (h : x < ipc.half d + MAX_PATH ∨ ipc.half d + MAX_PATH + 8 ≤ x) :
    ipc.placeHeader d message mem x = mem x := by
  rw [placeHeader, storeWord_outside (by omega), storeWord_outside (by omega)]

/-- Placing a message writes between the name and the end of its half only. -/
theorem placeMessage_outside {mem : Memory}
    (h : x < ipc.half d + MAX_PATH ∨ ipc.half d + ipc.m_sharedMemorySize / 2 ≤ x) :
    (ipc.placeMessage d message mem).2 x = mem x := by
  have hroom := ipc.half_room
  have hheader : ipc.placeHeader d message mem x = mem x := placeHeader_outside (by omega)
  have hlen : (message.m_data.take ipc.capacity).length ≤ ipc.capacity :=
    List.length_take_le _ _
  simp only [placeMessage]
  split_ifs
  · exact hheader
  · exact hheader
  · show memcpy_s _ _ _ _ x = mem x
    rw [memcpy_s, write_outside (by omega), hheader]

theorem sendMessage_mem {written : Bool} :
    (ipc.sendMessage d message link written).2.mem = (ipc.placeMessage d message link.mem).2 := by
  simp only [sendMessage]
  split <;> rfl

theorem waitForNewMessage_mem {call : WaitCall} :
    (ipc.waitForNewMessage d link call).2.mem = link.mem := by
  simp only [waitForNewMessage]
  split
  · rfl
  · split
    · rfl
    · split <;> rfl

/-- The bytes of the half of a direction. -/
def halfBytes (ipc : SharedMemIPC) (d : Direction) (x : ℕ) : Prop :=
  ipc.half d ≤ x ∧ x < ipc.half d + ipc.m_sharedMemorySize / 2

/-- The bytes of the two FIFO names. -/
def nameBytes (ipc : SharedMemIPC) (x : ℕ) : Prop :=
  ∃ d, ipc.half d ≤ x ∧ x < ipc.half d + MAX_PATH

def mapped (ipc : SharedMemIPC) (x : ℕ) : Prop :=
  ipc.m_pView ≤ x ∧ x < ipc.m_pView + ipc.m_sharedMemorySize

theorem placeMessage_other_half {mem : Memory} {d' : Direction} (hd : d ≠ d')
    (hx : ipc.halfBytes d' x) : (ipc.placeMessage d message mem).2 x = mem x := by
  obtain ⟨hlo, hhi⟩ := hx
  apply placeMessage_outside
  cases d <;> cases d'
  case toClient.toClient => exact absurd rfl hd
  case toServer.toServer => exact absurd rfl hd
  case toClient.toServer =>
    right
    exact hlo
  case toServer.toClient =>
    left
    simp only [half] at *
    omega

theorem placeMessage_names {mem : Memory} (hx : ipc.nameBytes x) :
    (ipc.placeMessage d message mem).2 x = mem x := by
  obtain ⟨d', hlo, hhi⟩ := hx
  have hroom := ipc.half_room
  by_cases hd : d = d'
  · subst hd
    exact placeMessage_outside (Or.inl hhi)
  · exact placeMessage_other_half hd ⟨hlo, by omega⟩

theorem placeMessage_unmapped {mem : Memory} (hx : ¬ ipc.mapped x) :
    (ipc.placeMessage d message mem).2 x = mem x := by
  apply placeMessage_outside
  simp only [mapped] at hx
  cases d <;> simp only [half] <;> omega

/-- A call in one direction leaves the bytes and the FIFO of the other alone. -/
theorem step_other {call : Call} (hd : call.direction ≠ d) :
    (∀ x, ipc.halfBytes d x → (ipc.step link call).mem x = link.mem x) ∧
      (ipc.step link call).fifo d = link.fifo d := by
  cases call with
  | send d' message written =>
    simp only [step]
    constructor
    · intro x hx
      rw [sendMessage_mem]
      exact placeMessage_other_half hd hx
    · simp only [sendMessage]
      split
      · exact Function.update_of_ne (Ne.symm hd) _ _
      · rfl
  | wait d' call =>
    simp only [step]
    constructor
    · intro x _
      rw [waitForNewMessage_mem]
    · simp only [waitForNewMessage]
      split_ifs
      · rfl
      · rfl
      · rfl
      · exact Function.update_of_ne (Ne.symm hd) _ _

theorem steps_other {calls : List Call} (hd : ∀ call ∈ calls, call.direction ≠ d) :
    (∀ x, ipc.halfBytes d x → (ipc.steps link calls).mem x = link.mem x) ∧
      (ipc.steps link calls).fifo d = link.fifo d := by
  induction calls generalizing link with
  | nil => exact ⟨fun _ _ => rfl, rfl⟩
  | cons call calls ih =>
    have hhead := @step_other ipc d link call (hd call List.mem_cons_self)
    have htail := @ih (ipc.step link call) (fun c hc => hd c (List.mem_cons_of_mem call hc))
    constructor
    · intro x hx
      exact (htail.1 x hx).trans (hhead.1 x hx)
    · exact htail.2.trans hhead.2

theorem steps_names {calls : List Call} (hx : ipc.nameBytes x) :
    (ipc.steps link calls).mem x = link.mem x := by
  induction calls generalizing link with
  | nil => rfl
  | cons call calls ih =>
    refine (@ih (ipc.step link call)).trans ?_
    cases call with
    | send d message written =>
      rw [step, sendMessage_mem]
      exact placeMessage_names hx
    | wait d call => rw [step, waitForNewMessage_mem]

/-- The names a server put into its mapping are there after any calls. -/
theorem names_survive {size : ℤ} {setup : ServerSetup} {mem : Memory} {calls : List Call}
    (hinit : initializeAsServer size setup mem = some (ipc, link))
    (hclient : setup.nameOfFIFOForNewMessageForClient.length ≤ MAX_PATH)
    (hserver : setup.nameOfFIFOForNewMessageForServer.length ≤ MAX_PATH) :
    (ipc.steps link calls).mem.read (ipc.half .toClient)
        setup.nameOfFIFOForNewMessageForClient.length = setup.nameOfFIFOForNewMessageForClient ∧
      (ipc.steps link calls).mem.read (ipc.half .toServer)
        setup.nameOfFIFOForNewMessageForServer.length =
          setup.nameOfFIFOForNewMessageForServer := by
  have hroom := ipc.half_room
  have hapart : ipc.half .toServer = ipc.half .toClient + ipc.m_sharedMemorySize / 2 := rfl
  have hkept : ∀ x, ipc.nameBytes x → (ipc.steps link calls).mem x = link.mem x :=
    fun x hx => steps_names hx
  have hmem : ∃ zeroed, link.mem = memcpy_s
      (memcpy_s zeroed (ipc.half .toClient) MAX_PATH setup.nameOfFIFOForNewMessageForClient)
      (ipc.half .toServer) MAX_PATH setup.nameOfFIFOForNewMessageForServer := by
    simp only [initializeAsServer, Option.dite_none_left_eq_some, Option.ite_none_left_eq_some,
      Option.bind_eq_some_iff, Option.some.injEq, Prod.mk.injEq] at hinit
    obtain ⟨_, _, m_pView, _, _, _, rfl, rfl⟩ := hinit
    exact ⟨_, rfl⟩
  obtain ⟨zeroed, hmem⟩ := hmem
  rw [memcpy_s, memcpy_s, List.take_of_length_le hclient, List.take_of_length_le hserver] at hmem
  constructor
  · calc _ = link.mem.read (ipc.half .toClient) _ := by
          apply read_congr
          intro i hi
          exact hkept _ ⟨.toClient, by omega, by omega⟩
      _ = _ := by
          rw [hmem, read_write_disjoint (by omega)]
          exact read_write_self
  · calc _ = link.mem.read (ipc.half .toServer) _ := by
          apply read_congr
          intro i hi
          exact hkept _ ⟨.toServer, by omega, by omega⟩
      _ = _ := by
          rw [hmem]
          exact read_write_self

/-! ### Round trip -/

/-- What the admission test lets through. -/
def Fits (ipc : SharedMemIPC) (message : SharedMemMessage) : Prop :=
  message.getDataSize = 0 ∨ message.getDataSize < ipc.capacity

theorem Fits.size_le (h : ipc.Fits message) : message.getDataSize ≤ ipc.capacity := by
  cases h with
  | inl h => omega
  | inr h => omega

/-- The half of a direction holds the message. -/
structure Holds (ipc : SharedMemIPC) (d : Direction) (message : SharedMemMessage)
    (mem : Memory) : Prop where
  type : mem.loadWord (ipc.half d + MAX_PATH) = message.m_messageType.value
  length : mem.loadWord (ipc.half d + MAX_PATH + 4) = UInt32.ofNat message.getDataSize
  data : mem.read (ipc.half d + MAX_PATH + 8) message.getDataSize = message.m_data

theorem placeMessage_holds {mem : Memory} (hfits : ipc.Fits message) :
    ipc.Holds d message (ipc.placeMessage d message mem).2 := by
  have htype : (ipc.placeHeader d message mem).loadWord (ipc.half d + MAX_PATH) =
      message.m_messageType.value := by
    rw [placeHeader, loadWord_storeWord_disjoint (by omega), loadWord_storeWord_self]
  have hlength : (ipc.placeHeader d message mem).loadWord (ipc.half d + MAX_PATH + 4) =
      UInt32.ofNat message.getDataSize := loadWord_storeWord_self
  simp only [placeMessage]
  split_ifs with hzero hlarge
  · refine ⟨htype, hlength, ?_⟩
    rw [hzero, List.eq_nil_of_length_eq_zero hzero]
    rfl
  · exact absurd hfits (by simp only [Fits]; omega)
  · have htake : message.m_data.take ipc.capacity = message.m_data :=
      List.take_of_length_le hfits.size_le
    refine ⟨?_, ?_, ?_⟩
    · rw [memcpy_s, loadWord_write_disjoint (by omega), htype]
    · rw [memcpy_s, loadWord_write_disjoint (by omega), hlength]
    · rw [memcpy_s, htake]
      exact read_write_self

theorem Holds.congr {mem mem' : Memory} (h : ipc.Holds d message mem) (hfits : ipc.Fits message)
    (hagree : ∀ x, ipc.halfBytes d x → mem' x = mem x) : ipc.Holds d message mem' := by
  have hroom := ipc.half_room
  have hpos := ipc.capacity_pos
  have hsize := hfits.size_le
  have hbyte : ∀ i, i < ipc.m_sharedMemorySize / 2 →
      mem' (ipc.half d + i) = mem (ipc.half d + i) := by
    intro i hi
    exact hagree _ ⟨by omega, by omega⟩
  refine ⟨?_, ?_, ?_⟩
  · rw [← h.type]
    apply loadWord_congr
    intro i hi
    rw [Nat.add_assoc]
    exact hbyte _ (by omega)
  · rw [← h.length]
    apply loadWord_congr
    intro i hi
    rw [Nat.add_assoc, Nat.add_assoc]
    exact hbyte _ (by omega)
  · rw [← h.data]
    apply read_congr
    intro i hi
    rw [Nat.add_assoc, Nat.add_assoc]
    exact hbyte _ (by omega)

/-- A wait that nothing disturbs takes the message its half holds. -/
theorem waitForNewMessage_holds {call : WaitCall} (h : ipc.Holds d message link.mem)
    (hfifo : 0 < link.fifo d) :
    (ipc.waitForNewMessage d link call).1 =
      if WaitCall.failed call.errors then
        some (false, .empty SHARED_MEM_MESSAGE_TRANSMISSION_ERROR)
      else if call.interrupted then some (false, .empty SHARED_MEM_MESSAGE_WAIT_INTERRUPTED)
      else some (true, message) := by
  have hlen : message.getDataSize < 2 ^ 31 := message.size_lt
  have hword : (UInt32.ofNat message.getDataSize).toNat = message.getDataSize := by
    rw [UInt32.toNat_ofNat']
    omega
  have hreplace : replaceDataWith link.mem ⟨link.mem.loadWord (ipc.half d + MAX_PATH)⟩
      (ipc.half d + MAX_PATH + 8) (link.mem.loadWord (ipc.half d + MAX_PATH + 4)) =
      some message := by
    simp only [replaceDataWith, h.type, h.length, hword, h.data]
    rw [dif_pos hlen]
  have hready : (link.fifo d == 0) = false := beq_eq_false_iff_ne.mpr (by omega)
  simp only [waitForNewMessage, hreplace, hready, Bool.and_false, Bool.false_eq_true, if_false]
  split_ifs <;> rfl

/-- Round trip. Between a message and the wait for it, the other direction may
run any calls. `written` stands for the kernel taking the announcement. -/
theorem mailbox_round_trip (ipc : SharedMemIPC) (d : Direction) (message : SharedMemMessage)
    (hfits : ipc.Fits message) (link : Link) (written : Bool) (calls : List Call)
    (hcalls : ∀ call ∈ calls, call.direction ≠ d) (call : WaitCall) :
    (ipc.sendMessage d message link written).1 = written ∧
      (written = true →
        (ipc.waitForNewMessage d
            (ipc.steps (ipc.sendMessage d message link written).2 calls) call).1 =
          if WaitCall.failed call.errors then
            some (false, .empty SHARED_MEM_MESSAGE_TRANSMISSION_ERROR)
          else if call.interrupted then some (false, .empty SHARED_MEM_MESSAGE_WAIT_INTERRUPTED)
          else some (true, message)) ∧
      ∀ x, (∃ d', d' ≠ d ∧ ipc.halfBytes d' x) ∨ ipc.nameBytes x ∨ ¬ ipc.mapped x →
        (ipc.sendMessage d message link written).2.mem x = link.mem x := by
  have hplaced : (ipc.placeMessage d message link.mem).1 = true := by
    simp only [placeMessage]
    split_ifs with hzero hlarge
    · rfl
    · exact absurd hfits (by simp only [Fits]; omega)
    · rfl
  refine ⟨?_, ?_, ?_⟩
  · cases written <;> simp [sendMessage, hplaced]
  · rintro rfl
    have hother := @steps_other ipc d (ipc.sendMessage d message link true).2 calls hcalls
    have hholds : ipc.Holds d message (ipc.sendMessage d message link true).2.mem := by
      rw [sendMessage_mem]
      exact placeMessage_holds hfits
    apply waitForNewMessage_holds (hholds.congr hfits hother.1)
    rw [hother.2]
    simp [sendMessage, hplaced]
  · intro x hx
    rw [sendMessage_mem]
    rcases hx with ⟨d', hd, hx⟩ | hx | hx
    · exact placeMessage_other_half (Ne.symm hd) hx
    · exact placeMessage_names hx
    · exact placeMessage_unmapped hx

/-- A mapping of the default size, before any message. -/
def defaultMapping : SharedMemIPC := ⟨0x10000, 0x1000, by decide⟩

def freshLink : Link := ⟨fun _ => 0, fun _ => 0⟩

/-- An answer with embedded zeros crosses a filename of the other direction. -/
theorem mailbox_round_trip_zeros :
    (defaultMapping.waitForNewMessageToServer
        (defaultMapping.steps
          (defaultMapping.sendMessageToServer
            ⟨SHARED_MEM_MESSAGE_FUZZ_DONE, [0, 7, 0], by decide⟩ freshLink true).2
          [.send .toClient ⟨SHARED_MEM_MESSAGE_FUZZ_FILENAME, [47], by decide⟩ true])
        ⟨[.EINTR], some false⟩).1 =
      some (true, ⟨SHARED_MEM_MESSAGE_FUZZ_DONE, [0, 7, 0], by decide⟩) :=
  (mailbox_round_trip defaultMapping .toServer
    ⟨SHARED_MEM_MESSAGE_FUZZ_DONE, [0, 7, 0], by decide⟩ (Or.inr (by decide)) freshLink true
    [.send .toClient ⟨SHARED_MEM_MESSAGE_FUZZ_FILENAME, [47], by decide⟩ true] (by decide)
    ⟨[.EINTR], some false⟩).2.1 rfl

/-! ### Messages that are too long -/

/-- Sending fails, no byte changes, and the other party reads what it would have
read before, never more than its half contains. -/
def FailsCleanly (ipc : SharedMemIPC) (d : Direction) (message : SharedMemMessage)
    (link : Link) (written : Bool) : Prop :=
  (ipc.sendMessage d message link written).1 = false ∧
    (ipc.sendMessage d message link written).2.mem = link.mem ∧
    ∀ call, (ipc.waitForNewMessage d (ipc.sendMessage d message link written).2 call).1 =
        (ipc.waitForNewMessage d link call).1 ∧
      ∀ received, (ipc.waitForNewMessage d (ipc.sendMessage d message link written).2 call).1 =
        some (true, received) → received.getDataSize ≤ ipc.capacity

theorem sendMessage_refused {written : Bool} (hlong : ipc.capacity < message.getDataSize) :
    ipc.sendMessage d message link written =
      (false, ⟨ipc.placeHeader d message link.mem, link.fifo⟩) := by
  have hplaced : ipc.placeMessage d message link.mem =
      (false, ipc.placeHeader d message link.mem) := by
    simp only [placeMessage]
    rw [if_neg (by omega), if_pos (by omega)]
  simp only [sendMessage, hplaced, Bool.false_and, Bool.false_eq_true, if_false]

theorem placeHeader_eq_self_iff {mem : Memory} :
    ipc.placeHeader d message mem = mem ↔
      mem.loadWord (ipc.half d + MAX_PATH) = message.m_messageType.value ∧
        mem.loadWord (ipc.half d + MAX_PATH + 4) = UInt32.ofNat message.getDataSize := by
  constructor
  · intro h
    rw [← h]
    constructor
    · rw [placeHeader, loadWord_storeWord_disjoint (by omega), loadWord_storeWord_self]
    · exact loadWord_storeWord_self
  · rintro ⟨htype, hlength⟩
    rw [placeHeader, storeWord_eq_self_iff.mpr htype, storeWord_eq_self_iff.mpr hlength]

theorem waitForNewMessage_silent (h : link.fifo d = 0) (call : WaitCall) :
    ∃ messageType, (ipc.waitForNewMessage d link call).1 = some (false, .empty messageType) := by
  simp only [waitForNewMessage, h, beq_self_eq_true, Bool.and_true]
  cases call.interrupted
  · simp only [Bool.not_false, if_true]
    split_ifs <;> exact ⟨_, rfl⟩
  · simp only [Bool.not_true, Bool.false_eq_true, if_false, if_true]
    split_ifs <;> exact ⟨_, rfl⟩

/-- With a message announced, the reader takes the length of the refused one. -/
theorem not_failsCleanly_of_announced {written : Bool}
    (hlong : ipc.capacity < message.getDataSize) (hfifo : 0 < link.fifo d) :
    ¬ ipc.FailsCleanly d message link written := by
  rintro ⟨_, _, hread⟩
  have hbound := (hread ⟨[], none⟩).2
  rw [sendMessage_refused hlong] at hbound
  have hlen : message.getDataSize < 2 ^ 31 := message.size_lt
  have hword : (UInt32.ofNat message.getDataSize).toNat = message.getDataSize := by
    rw [UInt32.toNat_ofNat']
    omega
  have hready : (link.fifo d == 0) = false := beq_eq_false_iff_ne.mpr (by omega)
  have hlength : (ipc.placeHeader d message link.mem).loadWord (ipc.half d + MAX_PATH + 4) =
      UInt32.ofNat message.getDataSize := loadWord_storeWord_self
  simp only [waitForNewMessage, WaitCall.failed, WaitCall.interrupted, hready, replaceDataWith,
    hlength, hword, dif_pos hlen, Option.getD_none, Bool.not_false, Bool.and_false,
    Bool.false_eq_true, if_false, Option.map_some] at hbound
  have hle := hbound _ rfl
  simp only [SharedMemMessage.getDataSize, length_read] at hle hlong
  omega

/-- A message longer than its half is refused, but its type and length are
written first. Nothing is damaged only if they were there already and nobody is
about to read. -/
theorem too_long_refused_iff (ipc : SharedMemIPC) (d : Direction) (message : SharedMemMessage)
    (hlong : ipc.capacity < message.getDataSize) (link : Link) (written : Bool) :
    ipc.FailsCleanly d message link written ↔
      (link.mem.loadWord (ipc.half d + MAX_PATH) = message.m_messageType.value ∧
        link.mem.loadWord (ipc.half d + MAX_PATH + 4) = UInt32.ofNat message.getDataSize) ∧
      link.fifo d = 0 := by
  constructor
  · intro h
    constructor
    · have hmem := h.2.1
      rw [sendMessage_refused hlong] at hmem
      exact placeHeader_eq_self_iff.mp hmem
    · by_contra hfifo
      exact not_failsCleanly_of_announced hlong (Nat.pos_of_ne_zero hfifo) h
  · rintro ⟨hheader, hfifo⟩
    have hsame : ipc.sendMessage d message link written = (false, link) := by
      rw [sendMessage_refused hlong, placeHeader_eq_self_iff.mpr hheader]
    simp only [FailsCleanly, hsame, true_and]
    intro call received hreceived
    obtain ⟨messageType, hnone⟩ := @waitForNewMessage_silent ipc d link hfifo call
    rw [hnone] at hreceived
    cases hreceived

def longMessage : SharedMemMessage :=
  ⟨SHARED_MEM_MESSAGE_FUZZ_FILENAME, List.replicate 0x800 0,
    by rw [List.length_replicate]; decide⟩

theorem longMessage_size : longMessage.getDataSize = 0x800 := List.length_replicate

/-- Even in a fresh mailbox the refused header stays behind. -/
theorem too_long_refused_fresh :
    ¬ defaultMapping.FailsCleanly .toServer longMessage freshLink true := by
  have hlong : defaultMapping.capacity < longMessage.getDataSize := by
    rw [longMessage_size]
    decide
  rw [too_long_refused_iff defaultMapping .toServer longMessage hlong freshLink true]
  rintro ⟨⟨htype, _⟩, _⟩
  exact absurd htype (by decide)

/-- A filename is announced and unread when a message of 0x800 bytes follows. -/
theorem too_long_damages_announced :
    ¬ defaultMapping.FailsCleanly .toClient longMessage
      (defaultMapping.sendMessageToClient
        ⟨SHARED_MEM_MESSAGE_FUZZ_FILENAME, [47, 116], by decide⟩ freshLink true).2 true := by
  apply not_failsCleanly_of_announced
  · rw [longMessage_size]
    decide
  · decide

end SharedMemIPC

end Fluffi.SharedMem
