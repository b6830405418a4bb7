import Fluffi.Runner.GdbThread

/-! What one step of the debugger thread can do, and how a hard reset can end. -/

namespace Fluffi.Runner.Gdb

variable {bpInstr : UInt32} {bpInstrBytes : BpInstrBytes}
  {crashRVA : List Line → UInt64 → Option String} {s t : GDBThread}

/-! ### Steps -/

/-- What a step of the thread can do. -/
inductive ThreadStep (bpInstr : UInt32) (bpInstrBytes : BpInstrBytes)
    (crashRVA : List Line → UInt64 → Option String) (s : GDBThread) : GDBThread → Prop
  | leave {t : GDBThread} (hreturned : t.place = .returned) :
      ThreadStep bpInstr bpInstrBytes crashRVA s t
  | beginLoop (hplace : s.place = .wait) :
      ThreadStep bpInstr bpInstrBytes crashRVA s { s with place := .consume none }
  | consumed (hplace : s.place = .consume none) :
      ThreadStep bpInstr bpInstrBytes crashRVA s { s with place := .cover }
  | leftoversConsumed {command : List GDBCommand} (hplace : s.place = .consume (some command)) :
      ThreadStep bpInstr bpInstrBytes crashRVA s { s with place := .send command }
  | consumeLine {leftoverOf : Option (List GDBCommand)} {line : Line} {queue : List Line}
      (hplace : s.place = .consume leftoverOf) :
      ThreadStep bpInstr bpInstrBytes crashRVA s
        (({ s with m_gdbOutputQueue := queue }).consumeLine leftoverOf line)
  | address {leftoverOf : Option (List GDBCommand)} {name line : Line} {queue : List Line}
      (hplace : s.place = .address leftoverOf name) (haddress : isAddressLine line = true) :
      ThreadStep bpInstr bpInstrBytes crashRVA s
        (({ s with m_gdbOutputQueue := queue }).handleAddress bpInstrBytes leftoverOf name line)
  | noAddress {leftoverOf : Option (List GDBCommand)} {name line : Line} {queue : List Line}
      (hplace : s.place = .address leftoverOf name) (haddress : isAddressLine line = false) :
      ThreadStep bpInstr bpInstrBytes crashRVA s
        { s with m_gdbOutputQueue := queue, read := s.read ++ [(line, false)] }
  | infoFiles {leftoverOf : Option (List GDBCommand)} {name : Line} {address : UInt64}
      (hplace : s.place = .infoFiles leftoverOf name address) :
      ThreadStep bpInstr bpInstrBytes crashRVA s { s with
        toGdb := .fluffi :: .infoFiles :: s.toGdb
        place := .infoAnswer leftoverOf name address [] }
  | crash {leftoverOf : Option (List GDBCommand)} {name line : Line} {address : UInt64}
      {response queue : List Line} {rva : String}
      (hplace : s.place = .infoAnswer leftoverOf name address response)
      (hrva : crashRVA response address = some rva) :
      ThreadStep bpInstr bpInstrBytes crashRVA s
        { ({ s with m_gdbOutputQueue := queue, read := s.read ++ [(line, false)] }).handleCrash
            name rva with place := .consume leftoverOf }
  | infoLine {leftoverOf : Option (List GDBCommand)} {name line : Line} {address : UInt64}
      {response queue : List Line}
      (hplace : s.place = .infoAnswer leftoverOf name address response) :
      ThreadStep bpInstr bpInstrBytes crashRVA s { s with
        m_gdbOutputQueue := queue
        read := s.read ++ [(line, false)]
        place := .infoAnswer leftoverOf name address (response ++ [line]) }
  | cover (hplace : s.place = .cover) :
      ThreadStep bpInstr bpInstrBytes crashRVA s (s.cover bpInstr bpInstrBytes)
  | nothingToSend (hplace : s.place = .send []) :
      ThreadStep bpInstr bpInstrBytes crashRVA s s.resetted
  | leftovers {command : List GDBCommand} (hplace : s.place = .send command) :
      ThreadStep bpInstr bpInstrBytes crashRVA s { s with place := .consume (some command) }
  | send {command : List GDBCommand} (hplace : s.place = .send command) :
      ThreadStep bpInstr bpInstrBytes crashRVA s { s with
        toGdb := .fluffi :: (command.reverse ++ s.toGdb)
        place := .answer }
  | answered {line : Line} {queue : List Line} (hplace : s.place = .answer) :
      ThreadStep bpInstr bpInstrBytes crashRVA s
        ({ s with m_gdbOutputQueue := queue, read := s.read ++ [(line, false)] }).resetted
  | answerLine {line : Line} {queue : List Line} (hplace : s.place = .answer) :
      ThreadStep bpInstr bpInstrBytes crashRVA s
        { s with m_gdbOutputQueue := queue, read := s.read ++ [(line, false)] }

theorem threadStep_of_step (hstep : s.step bpInstr bpInstrBytes crashRVA = some t) :
    ThreadStep bpInstr bpInstrBytes crashRVA s t := by
  unfold GDBThread.step at hstep
  split at hstep
  case h_1 hplace =>
    split_ifs at hstep
    · obtain rfl := Option.some.inj hstep
      exact .leave rfl
    · obtain rfl := Option.some.inj hstep
      exact .beginLoop hplace
  case h_2 leftoverOf hplace =>
    split at hstep
    · split at hstep
      · obtain rfl := Option.some.inj hstep
        exact .consumed hplace
      · obtain rfl := Option.some.inj hstep
        exact .leftoversConsumed hplace
    · obtain rfl := Option.some.inj hstep
      exact .consumeLine hplace
  case h_3 leftoverOf name hplace =>
    split at hstep
    · split_ifs at hstep
      obtain rfl := Option.some.inj hstep
      exact .leave rfl
    · dsimp only at hstep
      split_ifs at hstep with haddress
      · obtain rfl := Option.some.inj hstep
        exact .address hplace haddress
      · obtain rfl := Option.some.inj hstep
        exact .noAddress hplace (Bool.eq_false_of_not_eq_true haddress)
  case h_4 leftoverOf name address hplace =>
    split_ifs at hstep
    · obtain rfl := Option.some.inj hstep
      exact .leave rfl
    · obtain rfl := Option.some.inj hstep
      exact .infoFiles hplace
  case h_5 leftoverOf name address response hplace =>
    split at hstep
    · split_ifs at hstep
      obtain rfl := Option.some.inj hstep
      exact .leave rfl
    · dsimp only at hstep
      split_ifs at hstep
      · split at hstep
        case h_1 hrva =>
          obtain rfl := Option.some.inj hstep
          exact .crash hplace hrva
        · obtain rfl := Option.some.inj hstep
          exact .leave rfl
      · obtain rfl := Option.some.inj hstep
        exact .infoLine hplace
  case h_6 hplace =>
    obtain rfl := Option.some.inj hstep
    exact .cover hplace
  case h_7 command hplace =>
    split_ifs at hstep with hempty
    · obtain rfl := Option.some.inj hstep
      exact .nothingToSend (hempty ▸ hplace)
    · obtain rfl := Option.some.inj hstep
      exact .leftovers hplace
    · obtain rfl := Option.some.inj hstep
      exact .leave rfl
    · obtain rfl := Option.some.inj hstep
      exact .send hplace
  case h_8 hplace =>
    split at hstep
    · split_ifs at hstep
      obtain rfl := Option.some.inj hstep
      exact .leave rfl
    · dsimp only at hstep
      split_ifs at hstep
      · obtain rfl := Option.some.inj hstep
        exact .answered hplace
      · obtain rfl := Option.some.inj hstep
        exact .answerLine hplace
  case h_9 hplace => cases hstep

theorem returned_of_interrupted
    (hnext : next bpInstr bpInstrBytes crashRVA s .interrupted = some t) :
    t.place = .returned := by
  simp only [next] at hnext
  split_ifs at hnext
  split at hnext
  · obtain rfl := Option.some.inj hnext
    rfl
  · obtain rfl := Option.some.inj hnext
    rfl
  · cases hnext

/-! ### The end of a reset -/

/-- Whether a hard reset is going on. -/
def Place.resetting : Place → Bool
  | .consume leftoverOf | .address leftoverOf _ | .infoFiles leftoverOf _ _
  | .infoAnswer leftoverOf _ _ _ => leftoverOf.isSome
  | .send _ | .answer => true
  | _ => false

theorem consumeLine_place {leftoverOf : Option (List GDBCommand)}
    (hplace : s.place = .consume leftoverOf) (line : Line) :
    (s.consumeLine leftoverOf line).place ≠ .wait := by
  simp only [GDBThread.consumeLine]
  split
  · simp [hplace]
  · split
    · cases signalName line with
      | none => simp
      | some name => simp
    · split
      · simp
      · simp [hplace]

theorem handleAddress_place {leftoverOf : Option (List GDBCommand)} {name addressLine : Line} :
    (s.handleAddress bpInstrBytes leftoverOf name addressLine).place ≠ .wait := by
  simp only [GDBThread.handleAddress]
  cases stoull addressLine with
  | none => simp
  | some signalAddress =>
    simp only
    split
    · simp
    · simp

/-- A reset ends without a command, or with the end of the answer to it. -/
theorem reset_end (hreset : s.place.resetting = true) (hdone : t.place = .wait)
    {e : Event} (hnext : next bpInstr bpInstrBytes crashRVA s e = some t) :
    (s.place = .send [] ∧ t = s.resetted) ∨ ∃ line queue, s.place = .answer ∧
      t = { s with m_gdbOutputQueue := queue, read := s.read ++ [(line, false)] }.resetted := by
  have hnot : s.place ≠ .wait := by
    intro hwait
    simp [hwait, Place.resetting] at hreset
  cases e with
  | line line =>
    obtain rfl := Option.some.inj hnext
    exact absurd hdone hnot
  | terminate =>
    obtain rfl := Option.some.inj hnext
    exact absurd hdone hnot
  | setCoverageState state =>
    obtain rfl := Option.some.inj hnext
    exact absurd hdone hnot
  | interrupted =>
    rw [returned_of_interrupted hnext] at hdone
    cases hdone
  | step =>
    cases threadStep_of_step hnext with
    | leave hreturned =>
      rw [hreturned] at hdone
      cases hdone
    | nothingToSend hplace => exact .inl ⟨hplace, rfl⟩
    | @answered line queue hplace => exact .inr ⟨line, queue, hplace, rfl⟩
    | cover hplace => simp [hplace, Place.resetting] at hreset
    | @consumeLine leftoverOf line queue hplace =>
      exact absurd hdone (@consumeLine_place { s with m_gdbOutputQueue := queue } _ hplace line)
    | address hplace haddress => exact absurd hdone handleAddress_place
    | noAddress hplace haddress => exact absurd hdone hnot
    | answerLine hplace => exact absurd hdone hnot
    | _ => cases hdone

end Fluffi.Runner.Gdb
