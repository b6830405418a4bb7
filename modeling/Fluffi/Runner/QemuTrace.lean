import Fluffi.Shared.Files
import Fluffi.Systems.Records
import Mathlib.Data.Finset.Insert

/-! The trace file that QEMU writes. Behind a header stand records: mappings give names to
event numbers, and events have the layout that the name of their number says. The file is
read while QEMU may still have to write the rest of it. -/

namespace Fluffi.Runner.Qemu

open Shared Systems

/-! ### The event loop -/

def exec_tb : Bytes := [0x65, 0x78, 0x65, 0x63, 0x5f, 0x74, 0x62]

def dropped : Bytes := [0x64, 0x72, 0x6f, 0x70, 0x70, 0x65, 0x64]

/-- `std::map<uint64_t, std::string>` -/
abbrev EventMap := List (UInt64 × Bytes)

/-- A number that is there keeps its name. -/
def EventMap.insert (eventmap : EventMap) (eventnum : UInt64) (name : Bytes) : EventMap :=
  if (eventmap.lookup eventnum).isSome then eventmap else eventmap ++ [(eventnum, name)]

structure Events where
  eventmap : EventMap
  bbs : Finset UInt64

def Events.init : Events := ⟨[(0xfffffffffffffffe, dropped)], ∅⟩

inductive Turn where
  | next (s : Events) (ifs : Bytes)
  | leave
  /-- `name[namelen]` behind a buffer of `namelen + 1`, that is zero, bytes. -/
  | heapOverflow

/-- What `std::string(name)` takes of a buffer. -/
def stringOf (name : Bytes) : Bytes := name.takeWhile (· ≠ 0)

/-- What an event has behind the fields that all events have. -/
def readArguments (s : Events) (name ifs : Bytes) : Turn :=
  if name = exec_tb then
    readField 8 ifs .leave fun _ ifs =>
    readField 8 ifs .leave fun b8f ifs =>
    .next { s with bbs := insert (UInt64.ofNat (word b8f)) s.bbs } ifs
  else if name = dropped then
    readField 8 ifs .leave fun _ ifs => .next s ifs
  else .leave

/-- The body of the loop. -/
def turn (s : Events) (ifs : Bytes) : Turn :=
  readField 8 ifs .leave fun b8f ifs =>
  if word b8f = 0 then
    readField 8 ifs .leave fun b8f ifs =>
    let eventnum := UInt64.ofNat (word b8f)
    readField 4 ifs .leave fun b8f ifs =>
    let namelen := word b8f
    if namelen + 1 = 2 ^ 32 then .heapOverflow
    else
      readField namelen ifs .leave fun name ifs =>
      .next { s with eventmap := s.eventmap.insert eventnum (stringOf name) } ifs
  else if word b8f = 1 then
    readField 8 ifs .leave fun b8f ifs =>
    let eventnum := UInt64.ofNat (word b8f)
    -- the timestamp, and a word with the process id that is only logged
    readField 8 ifs .leave fun _ ifs =>
    readField 8 ifs .leave fun _ ifs =>
    -- `eventmap[eventnum]` inserts an empty name if there is none
    let eventmap := s.eventmap.insert eventnum []
    readArguments { s with eventmap := eventmap } ((eventmap.lookup eventnum).getD []) ifs
  else .leave

theorem readField_next {n : ℕ} {l rest : Bytes} {next : Bytes → Bytes → Turn} {s : Events}
    (h : readField n l .leave next = .next s rest) :
    n ≤ l.length ∧ next (l.take n) (l.drop n) = .next s rest := by
  rw [readField] at h
  split at h
  next hle => exact ⟨hle, h⟩
  next => cases h

/-- A turn after which the loop goes on has read something. -/
theorem turn_next {s s' : Events} {ifs rest : Bytes} (h : turn s ifs = .next s' rest) :
    rest.length < ifs.length := by
  obtain ⟨htype, h⟩ := readField_next h
  suffices rest.length ≤ (ifs.drop 8).length by
    rw [List.length_drop] at this
    omega
  split at h
  · -- a mapping
    obtain ⟨-, h⟩ := readField_next h
    obtain ⟨-, h⟩ := readField_next h
    dsimp only at h
    split at h
    · cases h
    · obtain ⟨-, h⟩ := readField_next h
      cases h
      simp only [List.length_drop]
      omega
  · split at h
    · -- an event
      obtain ⟨-, h⟩ := readField_next h
      obtain ⟨-, h⟩ := readField_next h
      obtain ⟨-, h⟩ := readField_next h
      dsimp only [readArguments] at h
      split at h
      · obtain ⟨-, h⟩ := readField_next h
        obtain ⟨-, h⟩ := readField_next h
        cases h
        simp only [List.length_drop]
        omega
      · split at h
        · obtain ⟨-, h⟩ := readField_next h
          cases h
          simp only [List.length_drop]
          omega
        · cases h
    · cases h

def eventLoop (s : Events) (ifs : Bytes) : Except Abnormal (Finset UInt64) :=
  match _h : turn s ifs with
  | .next s' rest => eventLoop s' rest
  | .leave => .ok s.bbs
  | .heapOverflow => .error .heapOverflow
termination_by ifs.length
decreasing_by exact turn_next _h

/-- `ifs.read(b8f, 8)`, and the buffer as the code goes on to use it. -/
def readWord (b8f ifs : Bytes) : Bytes := (ifs ++ b8f.drop ifs.length).take 8

/-- The program counters of a trace file, if the loop is reached. Whether the file is as
long as its header is not checked, so the buffer may have what was in it before. -/
def readTrace (b8f ifs : Bytes) : Except Abnormal (Option (Finset UInt64)) :=
  let b8f := readWord b8f ifs
  let ifs := ifs.drop 8
  if word b8f ≠ 0xffffffffffffffff then .ok none
  else
    let b8f := readWord b8f ifs
    let ifs := ifs.drop 8
    if word b8f ≠ 0xf2b177cb0aa429b4 then .ok none
    else
      let b8f := readWord b8f ifs
      let ifs := ifs.drop 8
      if word b8f ≠ 0x04 then .ok none
      else (eventLoop .init ifs).map some

/-! ### Traces -/

inductive TraceRecord where
  | mapping (mod_num : UInt64) (name : Bytes)
  | exec_tb (event_id timestamp : UInt64) (unknown pid : UInt32) (tb_addr pc : UInt64)
  | dropped (event_id timestamp : UInt64) (unknown pid : UInt32) (count : UInt64)

namespace TraceRecord

def encode : TraceRecord → Bytes
  | mapping mod_num name =>
    bytesOf 8 0 ++ (bytesOf 8 mod_num.toNat ++ (bytesOf 4 name.length ++ (name ++ [])))
  | exec_tb event_id timestamp unknown pid tb_addr pc =>
    bytesOf 8 1 ++ (bytesOf 8 event_id.toNat ++ (bytesOf 8 timestamp.toNat ++
      ((bytesOf 4 unknown.toNat ++ bytesOf 4 pid.toNat) ++
        (bytesOf 8 tb_addr.toNat ++ (bytesOf 8 pc.toNat ++ [])))))
  | dropped event_id timestamp unknown pid count =>
    bytesOf 8 1 ++ (bytesOf 8 event_id.toNat ++ (bytesOf 8 timestamp.toNat ++
      ((bytesOf 4 unknown.toNat ++ bytesOf 4 pid.toNat) ++ (bytesOf 8 count.toNat ++ []))))

def mapping? : TraceRecord → Option (UInt64 × Bytes)
  | mapping mod_num name => some (mod_num, stringOf name)
  | _ => none

def pc? : TraceRecord → Option UInt64
  | exec_tb _ _ _ _ _ pc => some pc
  | _ => none

/-- The name that a number has behind some records: the first one it was given. -/
def nameOf (before : List TraceRecord) (eventnum : UInt64) : Option Bytes :=
  ((0xfffffffffffffffe, Qemu.dropped) :: before.filterMap mapping?).lookup eventnum

/-- A record as QEMU writes it behind others. -/
def Fits (before : List TraceRecord) : TraceRecord → Prop
  | mapping _ name => name.length < 2 ^ 32 - 1
  | exec_tb event_id .. => nameOf before event_id = some Qemu.exec_tb
  | dropped event_id .. => nameOf before event_id = some Qemu.dropped

end TraceRecord

def Trace (records : List TraceRecord) : Prop :=
  ∀ before r after, records = before ++ r :: after → r.Fits before

def traceHeader : Bytes :=
  bytesOf 8 0xffffffffffffffff ++ bytesOf 8 0xf2b177cb0aa429b4 ++ bytesOf 8 0x04

/-! ### What the loop takes up -/

theorem EventMap.lookup_insert (eventmap : EventMap) (eventnum num : UInt64) (name : Bytes) :
    (eventmap.insert eventnum name).lookup num = (eventmap ++ [(eventnum, name)]).lookup num := by
  rw [EventMap.insert]
  split
  next hthere =>
    rw [List.lookup_append]
    by_cases hnum : num = eventnum
    · obtain ⟨name', hname'⟩ := Option.isSome_iff_exists.mp hthere
      rw [hnum, hname', Option.some_or]
    · have hlast : List.lookup num [(eventnum, name)] = none := by
        rw [List.lookup_cons, beq_false_of_ne hnum]
        rfl
      rw [hlast, Option.or_none]
  next => rfl

theorem EventMap.insert_of_lookup {eventmap : EventMap} {eventnum : UInt64} {name : Bytes}
    (h : eventmap.lookup eventnum = some name) (name' : Bytes) :
    eventmap.insert eventnum name' = eventmap := by
  rw [EventMap.insert, h]
  rfl

namespace TraceRecord

def apply (s : Events) : TraceRecord → Events
  | mapping mod_num name => { s with eventmap := s.eventmap.insert mod_num (stringOf name) }
  | exec_tb _ _ _ _ _ pc => { s with bbs := insert pc s.bbs }
  | dropped .. => s

def after (before : List TraceRecord) : Events := before.foldl apply .init

theorem after_concat (before : List TraceRecord) (r : TraceRecord) :
    after (before ++ [r]) = apply (after before) r := List.foldl_concat ..

theorem lookup_after (before : List TraceRecord) (eventnum : UInt64) :
    (after before).eventmap.lookup eventnum = nameOf before eventnum := by
  induction before using List.reverseRecOn with
  | nil => rfl
  | append_singleton before r ih =>
    rw [after_concat, nameOf, List.filterMap_append, ← List.cons_append, List.lookup_append,
      ← nameOf, ← ih]
    cases r with
    | mapping mod_num name =>
      rw [apply, EventMap.lookup_insert, List.lookup_append]
      rfl
    | exec_tb => exact Option.or_none.symm
    | dropped => exact Option.or_none.symm

theorem mem_after_iff {before : List TraceRecord} {pc : UInt64} :
    pc ∈ (after before).bbs ↔ ∃ r ∈ before, r.pc? = some pc := by
  induction before using List.reverseRecOn with
  | nil => simp [after, Events.init]
  | append_singleton before r ih =>
    rw [after_concat]
    cases r with
    | mapping => simp [apply, ih, pc?, or_and_right, exists_or]
    | exec_tb _ _ _ _ _ pc' =>
      simp only [apply, Finset.mem_insert, ih, List.mem_append, List.mem_singleton, or_and_right,
        exists_or, exists_eq_left, pc?, Option.some.injEq]
      rw [or_comm, eq_comm]
    | dropped => simp [apply, ih, pc?, or_and_right, exists_or]

theorem word_uint64 (x : UInt64) : UInt64.ofNat (word (bytesOf 8 x.toNat)) = x := by
  rw [word_bytesOf x.toNat_lt, UInt64.ofNat_toNat]

/-- The fields that all events have. -/
theorem turn_event {before : List TraceRecord} {event_id timestamp : UInt64}
    {unknown pid : UInt32} {name : Bytes} (h : nameOf before event_id = some name)
    (ifs : Bytes) :
    turn (after before) (bytesOf 8 1 ++ (bytesOf 8 event_id.toNat ++ (bytesOf 8 timestamp.toNat ++
      ((bytesOf 4 unknown.toNat ++ bytesOf 4 pid.toNat) ++ ifs)))) =
      readArguments (after before) name ifs := by
  have hname : (after before).eventmap.lookup event_id = some name := by rw [lookup_after, h]
  rw [turn, readField_append (bytesOf_length 8 1), if_neg (by decide), if_pos (by decide),
    readField_append (bytesOf_length 8 _)]
  dsimp only
  rw [readField_append (bytesOf_length 8 _), readField_append (by simp), word_uint64,
    EventMap.insert_of_lookup hname, hname]
  rfl

theorem turn_encode {before : List TraceRecord} {r : TraceRecord} (h : r.Fits before)
    (ifs : Bytes) : turn (after before) (r.encode ++ ifs) = .next (apply (after before) r) ifs := by
  cases r with
  | mapping mod_num name =>
    have hlength : name.length < 2 ^ 32 - 1 := h
    have hname : word (bytesOf 4 name.length) = name.length := word_bytesOf (by omega)
    simp only [encode, List.append_nil, List.append_assoc]
    rw [turn, readField_append (bytesOf_length 8 0), if_pos (by decide),
      readField_append (bytesOf_length 8 _)]
    dsimp only
    rw [readField_append (bytesOf_length 4 _), hname, if_neg (by omega), readField_append rfl,
      word_uint64]
    rfl
  | exec_tb event_id timestamp unknown pid tb_addr pc =>
    simp only [encode, List.append_nil, List.append_assoc]
    rw [← List.append_assoc (bytesOf 4 _), turn_event h, readArguments, if_pos rfl,
      readField_append (bytesOf_length 8 _), readField_append (bytesOf_length 8 _), word_uint64]
    rfl
  | dropped event_id timestamp unknown pid count =>
    simp only [encode, List.append_nil, List.append_assoc]
    rw [← List.append_assoc (bytesOf 4 _), turn_event h, readArguments, if_neg (by decide),
      if_pos rfl, readField_append (bytesOf_length 8 _)]
    rfl

theorem turn_cutOff_event {before : List TraceRecord} {event_id timestamp : UInt64}
    {unknown pid : UInt32} {name part arguments : Bytes}
    (h : nameOf before event_id = some name)
    (hpart : CutOff part (bytesOf 8 1 ++ (bytesOf 8 event_id.toNat ++
      (bytesOf 8 timestamp.toNat ++
        ((bytesOf 4 unknown.toNat ++ bytesOf 4 pid.toNat) ++ arguments)))))
    (harguments : ∀ part', CutOff part' arguments →
      readArguments (after before) name part' = .leave) :
    turn (after before) part = .leave := by
  have hname : (after before).eventmap.lookup event_id = some name := by rw [lookup_after, h]
  rw [turn]
  refine hpart.readField (bytesOf_length 8 1) fun part hpart => ?_
  rw [if_neg (by decide), if_pos (by decide)]
  refine hpart.readField (bytesOf_length 8 _) fun part hpart => ?_
  refine hpart.readField (bytesOf_length 8 _) fun part hpart => ?_
  refine hpart.readField (by simp) fun part hpart => ?_
  dsimp only
  rw [word_uint64, EventMap.insert_of_lookup hname, hname]
  exact harguments part hpart

theorem turn_cutOff {before : List TraceRecord} {r : TraceRecord} {part : Bytes}
    (h : r.Fits before) (hpart : CutOff part r.encode) : turn (after before) part = .leave := by
  cases r with
  | mapping mod_num name =>
    have hlength : name.length < 2 ^ 32 - 1 := h
    have hname : word (bytesOf 4 name.length) = name.length := word_bytesOf (by omega)
    rw [turn]
    refine hpart.readField (bytesOf_length 8 0) fun part hpart => ?_
    rw [if_pos (by decide)]
    refine hpart.readField (bytesOf_length 8 _) fun part hpart => ?_
    refine hpart.readField (bytesOf_length 4 _) fun part hpart => ?_
    rw [hname, if_neg (by omega)]
    exact hpart.readField rfl fun part hpart => absurd hpart not_cutOff_nil
  | exec_tb event_id timestamp unknown pid tb_addr pc =>
    refine turn_cutOff_event h hpart fun part hpart => ?_
    rw [readArguments, if_pos rfl]
    refine hpart.readField (bytesOf_length 8 _) fun part hpart => ?_
    exact hpart.readField (bytesOf_length 8 _) fun part hpart => absurd hpart not_cutOff_nil
  | dropped event_id timestamp unknown pid count =>
    refine turn_cutOff_event h hpart fun part hpart => ?_
    rw [readArguments, if_neg (by decide), if_pos rfl]
    exact hpart.readField (bytesOf_length 8 _) fun part hpart => absurd hpart not_cutOff_nil

end TraceRecord

open TraceRecord

theorem eventLoop_next {s s' : Events} {ifs rest : Bytes} (h : turn s ifs = .next s' rest) :
    eventLoop s ifs = eventLoop s' rest := by
  rw [eventLoop]
  split
  next heq =>
    obtain ⟨rfl, rfl⟩ := Turn.next.inj (h.symm.trans heq)
    rfl
  next heq => cases h.symm.trans heq
  next heq => cases h.symm.trans heq

theorem eventLoop_leave {s : Events} {ifs : Bytes} (h : turn s ifs = .leave) :
    eventLoop s ifs = .ok s.bbs := by
  rw [eventLoop]
  split
  next heq => cases h.symm.trans heq
  next => rfl
  next heq => cases h.symm.trans heq

theorem eventLoop_nil (s : Events) : eventLoop s [] = .ok s.bbs := eventLoop_leave rfl

/-- Behind the header the loop takes up the complete records of a trace. -/
theorem eventLoop_take {records : List TraceRecord} (h : Trace records) (n : ℕ) :
    eventLoop .init ((records.flatMap encode).take n) =
      .ok (after (complete encode n records)).bbs := by
  have hconcat (before records : List TraceRecord) :
      records.foldl (fun before r => before ++ [r]) before = before ++ records := by
    induction records generalizing before with
    | nil => rw [List.foldl_nil, List.append_nil]
    | cons r records ih => rw [List.foldl_cons, ih, List.append_assoc, List.singleton_append]
  refine (read_take encode (fun before => eventLoop (after before))
    (fun before r => before ++ [r]) (fun before => .ok (after before).bbs) Fits
    (fun before r l hr => by rw [eventLoop_next (turn_encode hr l), after_concat])
    (fun before r part hr hpart => eventLoop_leave (turn_cutOff hr hpart))
    (fun before => eventLoop_nil _) n (s := []) fun before r rest heq => ?_).trans ?_
  · rw [hconcat]
    exact h before r rest heq
  · rw [hconcat, List.nil_append]

theorem readTrace_traceHeader (b8f ifs : Bytes) :
    readTrace b8f (traceHeader ++ ifs) = (eventLoop .init ifs).map some := by
  have hword {k : ℕ} (hk : k < 256 ^ 8) (b8f rest : Bytes) :
      word (readWord b8f (bytesOf 8 k ++ rest)) = k := by
    rw [readWord, List.append_assoc, List.take_left' (bytesOf_length 8 k), word_bytesOf hk]
  have hdrop (k : ℕ) (rest : Bytes) : (bytesOf 8 k ++ rest).drop 8 = rest :=
    List.drop_left' (bytesOf_length 8 k)
  rw [traceHeader, List.append_assoc, List.append_assoc, readTrace]
  simp only [hdrop]
  rw [hword (by decide), if_neg (by decide), hword (by decide), if_neg (by decide),
    hword (by decide), if_neg (by decide)]

/-- Of a file that ends within the header nothing is reported, whatever the buffer had in it. -/
theorem readTrace_short (b8f : Bytes) {ifs : Bytes} (h : ifs.length ≤ 24) :
    ∃ bbs, readTrace b8f ifs = .ok bbs ∧ bbs.getD ∅ = ∅ := by
  have hdrop : ((ifs.drop 8).drop 8).drop 8 = [] := by
    rw [List.drop_drop, List.drop_drop, List.drop_eq_nil_iff]
    exact h
  rw [readTrace]
  dsimp only
  split
  · exact ⟨none, rfl, rfl⟩
  · split
    · exact ⟨none, rfl, rfl⟩
    · split
      · exact ⟨none, rfl, rfl⟩
      · rw [hdrop, eventLoop_nil]
        exact ⟨some ∅, rfl, rfl⟩

/-- A trace that is cut anywhere gives the program counters of the blocks that are complete
in it. -/
theorem readTrace_prefix_exact (b8f : Bytes) {records : List TraceRecord} (h : Trace records)
    (n : ℕ) :
    ∃ bbs, readTrace b8f ((traceHeader ++ records.flatMap encode).take n) = .ok bbs ∧
      (traceHeader.length ≤ n → bbs.isSome) ∧
      ∀ pc, pc ∈ bbs.getD ∅ ↔ ∃ before r rest, records = before ++ r :: rest ∧
        r.pc? = some pc ∧ (traceHeader ++ (before ++ [r]).flatMap encode).length ≤ n := by
  rcases Nat.lt_or_ge n traceHeader.length with hlt | hge
  · have hshort : ((traceHeader ++ records.flatMap encode).take n).length ≤ 24 := by
      rw [List.length_take]
      have : traceHeader.length = 24 := rfl
      omega
    obtain ⟨bbs, hread, hempty⟩ := readTrace_short b8f hshort
    refine ⟨bbs, hread, by omega, fun pc => ?_⟩
    rw [hempty]
    refine iff_of_false (by simp) ?_
    rintro ⟨before, r, rest, -, -, hle⟩
    rw [List.length_append] at hle
    omega
  · have hbbs := eventLoop_take h (n - traceHeader.length)
    refine ⟨some (after (complete encode (n - traceHeader.length) records)).bbs, ?_, by simp,
      fun pc => ?_⟩
    · rw [List.take_append, List.take_of_length_le hge, readTrace_traceHeader, hbbs]
      rfl
    · rw [Option.getD_some, mem_after_iff]
      constructor
      · rintro ⟨r, hr, hpc⟩
        obtain ⟨before, rest, heq, hle⟩ := mem_complete_iff.mp hr
        refine ⟨before, r, rest, heq, hpc, ?_⟩
        rw [List.length_append]
        omega
      · rintro ⟨before, r, rest, heq, hpc, hle⟩
        rw [List.length_append] at hle
        exact ⟨r, mem_complete_iff.mpr ⟨before, rest, heq, by omega⟩, hpc⟩

/-- The number 5 is given a second name, which it does not take. -/
def redeclared : List TraceRecord :=
  [.mapping 5 Qemu.exec_tb, .mapping 5 Qemu.dropped, .exec_tb 5 0 0 7 0 0x401000]

theorem trace_redeclared : Trace redeclared := by
  intro before r rest heq
  rcases before with _ | ⟨r₁, _ | ⟨r₂, _ | ⟨r₃, before⟩⟩⟩
  · cases heq
    exact (by decide : Qemu.exec_tb.length < 2 ^ 32 - 1)
  · cases heq
    exact (by decide : Qemu.dropped.length < 2 ^ 32 - 1)
  · cases heq
    exact (by decide : nameOf (redeclared.take 2) 5 = some Qemu.exec_tb)
  · simp [redeclared] at heq

theorem readTrace_prefix_exact_redeclared :
    ∃ bbs, readTrace [1, 2, 3, 4, 5, 6, 7, 8]
        ((traceHeader ++ redeclared.flatMap encode).take 100) = .ok bbs ∧
      (traceHeader.length ≤ 100 → bbs.isSome) ∧
      ∀ pc, pc ∈ bbs.getD ∅ ↔ ∃ before r rest, redeclared = before ++ r :: rest ∧
        r.pc? = some pc ∧ (traceHeader ++ (before ++ [r]).flatMap encode).length ≤ 100 :=
  readTrace_prefix_exact _ trace_redeclared 100

end Fluffi.Runner.Qemu
