import Mathlib.Data.List.Basic
import Mathlib.Logic.Function.Basic

/-! A target under drcovMulti. Blocks are covered, and two nudges arrive from the runner: one
drops what was covered so far, the other writes it to the current one of two log files and
opens the other file. A nudge carries no number; the testcase it was sent for is ours, and so
is the history of the target. Between two steps of the runner anything may happen to the
target and to the files. -/

namespace Fluffi.Runner

variable {Block : Type*}

inductive Nudge where
  | NUDGE_RESET_COVERAGE
  | NUDGE_DUMP_CURRENT_COVERAGE
  deriving DecidableEq, Repr

open Nudge

/-- What is written to the pipe when the nudge is done. -/
def Nudge.response : Nudge → Char
  | NUDGE_RESET_COVERAGE => 'R'
  | NUDGE_DUMP_CURRENT_COVERAGE => 'D'

inductive TargetEvent (Block : Type*) where
  | block (block : Block)
  | nudge (nudge : Nudge) (testcase : ℕ)

abbrev History (Block : Type*) := List (TargetEvent Block)

/-- The number of dumps that were performed. -/
def dumps : History Block → ℕ
  | [] => 0
  | .nudge NUDGE_DUMP_CURRENT_COVERAGE _ :: history => dumps history + 1
  | _ :: history => dumps history

/-- The coverage from a given one on: a reset drops it, a dump does not. -/
def coverageFrom (covered : List Block) : History Block → List Block
  | [] => covered
  | .block block :: history => coverageFrom (covered ++ [block]) history
  | .nudge NUDGE_RESET_COVERAGE _ :: history => coverageFrom [] history
  | .nudge NUDGE_DUMP_CURRENT_COVERAGE _ :: history => coverageFrom covered history

def coverage (history : History Block) : List Block := coverageFrom [] history

/-- A log file. It has no bytes until it is completed. -/
inductive LogFile (Block : Type*) where
  | opened
  | completed (blocks : List Block)

/-- The log files of one process, by the number in their names. -/
abbrev LogFiles (Block : Type*) := ℕ → Option (LogFile Block)

/-- `dump_current_coverage` -/
def dump_current_coverage (history : History Block) (files : LogFiles Block) : LogFiles Block :=
  Function.update
    (Function.update files (dumps history % 2) (some (.completed (coverage history))))
    ((dumps history + 1) % 2) (some .opened)

structure Target (Block : Type*) where
  pid : ℕ
  alive : Bool
  history : History Block
  pending : List (Nudge × ℕ)
  pipe : List Char

def Target.start (pid : ℕ) : Target Block := ⟨pid, true, [], [], []⟩

/-- `event_nudge`, with the files. -/
def Target.event_nudge (t : Target Block) (nudge : Nudge) (testcase : ℕ)
    (files : LogFiles Block) : Target Block × LogFiles Block :=
  ({ t with
      history := t.history ++ [.nudge nudge testcase]
      pipe := t.pipe ++ [nudge.response] },
    match nudge with
    | NUDGE_RESET_COVERAGE => files
    | NUDGE_DUMP_CURRENT_COVERAGE => dump_current_coverage t.history files)

/-- The target that was started last, and the log files of all processes. -/
structure World (Block : Type*) where
  target : Option (Target Block)
  files : ℕ → LogFiles Block

/-- What the runner does not do. -/
inductive Happening (Block : Type*) where
  | covers (block : Block)
  | handles (i : ℕ)
  | exits
  | dies
  | vanishes (pid number : ℕ)
  | writes (pid number : ℕ) (file : LogFile Block)

namespace World

def setFile (world : World Block) (pid number : ℕ) (file : Option (LogFile Block)) :
    World Block :=
  { world with
    files := Function.update world.files pid (Function.update (world.files pid) number file) }

/-- The target, if it is alive. -/
def living (world : World Block) : Option (Target Block) :=
  world.target.filter Target.alive

def happens (world : World Block) : Happening Block → Option (World Block)
  | .covers block => world.living.map fun t =>
      { world with target := some { t with history := t.history ++ [.block block] } }
  | .handles i => world.living.bind fun t => (t.pending[i]?).map fun (nudge, testcase) =>
      let handled := { t with pending := t.pending.eraseIdx i }.event_nudge nudge testcase
        (world.files t.pid)
      ⟨some handled.1, Function.update world.files t.pid handled.2⟩
  -- the rest of the coverage is written when the target exits
  | .exits => world.living.map fun t =>
      { world with target := some { t with alive := false } }.setFile t.pid (dumps t.history % 2)
        (some (.completed (coverage t.history)))
  | .dies => world.living.map fun t => { world with target := some { t with alive := false } }
  | .vanishes pid number => some (world.setFile pid number none)
  | .writes pid number file =>
      if world.target.any (·.pid == pid) then none else some (world.setFile pid number (some file))

end World

/-! ### Histories -/

theorem dumps_append (history history' : History Block) :
    dumps (history ++ history') = dumps history + dumps history' := by
  induction history with
  | nil => simp [dumps]
  | cons event history ih =>
    rcases event with _ | ⟨_ | _, _⟩ <;> simp only [List.cons_append, dumps, ih]
    omega

theorem dumps_blocks (blocks : List Block) : dumps (blocks.map TargetEvent.block) = 0 := by
  induction blocks with
  | nil => rfl
  | cons block blocks ih => simpa [dumps] using ih

theorem dumps_covering (testcase : ℕ) (before : History Block) (blocks : List Block) :
    dumps (before ++ .nudge NUDGE_RESET_COVERAGE testcase :: blocks.map TargetEvent.block) =
      dumps before := by
  simp [dumps_append, dumps, dumps_blocks]

theorem coverageFrom_append (covered : List Block) (history history' : History Block) :
    coverageFrom covered (history ++ history') =
      coverageFrom (coverageFrom covered history) history' := by
  induction history generalizing covered with
  | nil => rfl
  | cons event history ih =>
    rcases event with _ | ⟨_ | _, _⟩ <;> simp only [List.cons_append, coverageFrom, ih]

theorem coverageFrom_blocks (covered blocks : List Block) :
    coverageFrom covered (blocks.map TargetEvent.block) = covered ++ blocks := by
  induction blocks generalizing covered with
  | nil => simp [coverageFrom]
  | cons block blocks ih => simp [coverageFrom, ih]

/-! ### What a runner can rely on -/

/-- A fact about a target and its files that lasts while no nudge arrives: when blocks are
covered, when files disappear, and when the target writes its coverage once more at its end. -/
structure Lasting (P : History Block → LogFiles Block → Prop) : Prop where
  block : ∀ {history files} (block : Block), P history files →
    P (history ++ [.block block]) files
  vanish : ∀ {history files files'}, P history files →
    (∀ number, files' number = files number ∨ files' number = none) → P history files'
  exit : ∀ {history files} (file : Option (LogFile Block)), P history files →
    P history (Function.update files (dumps history % 2) file)

/-- The next dump completes the file with this number. -/
def AtFile (number : ℕ) (history : History Block) (_ : LogFiles Block) : Prop :=
  number = dumps history % 2

/-- The reset for a testcase is done, and only blocks came behind it. -/
def Covering (testcase number : ℕ) (history : History Block) (_ : LogFiles Block) : Prop :=
  ∃ (before : History Block) (blocks : List Block),
    history = before ++ .nudge NUDGE_RESET_COVERAGE testcase ::
      blocks.map TargetEvent.block ∧
    number = dumps before % 2

/-- The dump for the testcase is done as well, and its file, if it is there, has what was
covered in between. -/
def Dumped (testcase number : ℕ) (history : History Block) (files : LogFiles Block) : Prop :=
  ∃ (before : History Block) (blocks behind : List Block),
    history = before ++ .nudge NUDGE_RESET_COVERAGE testcase ::
      (blocks.map TargetEvent.block ++ .nudge NUDGE_DUMP_CURRENT_COVERAGE testcase ::
        behind.map TargetEvent.block) ∧
    number = dumps before % 2 ∧ ∀ file ∈ files number, file = .completed blocks

/-- The file that was read has what was covered between the reset and the dump for the testcase, and
that of it which is to be covered was taken over. -/
def Reported (toCover : Block → Bool) (testcase number : ℕ) (file : LogFile Block)
    (covered : List Block) (history : History Block) (_ : LogFiles Block) : Prop :=
  ∃ (before : History Block) (blocks behind : List Block),
    history = before ++ .nudge NUDGE_RESET_COVERAGE testcase ::
      (blocks.map TargetEvent.block ++ .nudge NUDGE_DUMP_CURRENT_COVERAGE testcase ::
        behind.map TargetEvent.block) ∧
    number = dumps before % 2 ∧ file = .completed blocks ∧ covered = blocks.filter toCover

theorem lasting_atFile (number : ℕ) : Lasting (@AtFile Block number) where
  block block h := by simpa [AtFile, dumps_append, dumps] using h
  vanish h _ := h
  exit _ h := h

theorem lasting_covering (testcase number : ℕ) :
    Lasting (@Covering Block testcase number) where
  block block := by
    rintro ⟨before, blocks, rfl, hnumber⟩
    exact ⟨before, blocks ++ [block], by simp, hnumber⟩
  vanish h _ := h
  exit _ h := h

theorem dumps_dumped (testcase : ℕ) (before : History Block) (blocks behind : List Block) :
    dumps (before ++ .nudge NUDGE_RESET_COVERAGE testcase ::
      (blocks.map TargetEvent.block ++ .nudge NUDGE_DUMP_CURRENT_COVERAGE testcase ::
        behind.map TargetEvent.block)) = dumps before + 1 := by
  simp [dumps_append, dumps, dumps_blocks]

theorem lasting_dumped (testcase number : ℕ) :
    Lasting (@Dumped Block testcase number) where
  block block := by
    rintro ⟨before, blocks, behind, rfl, hnumber, hfile⟩
    exact ⟨before, blocks, behind ++ [block], by simp, hnumber, hfile⟩
  vanish := by
    rintro _ files files' ⟨before, blocks, behind, rfl, hnumber, hfile⟩ hvanish
    refine ⟨before, blocks, behind, rfl, hnumber, fun file hmem => ?_⟩
    rcases hvanish number with heq | heq
    · exact hfile file (heq ▸ hmem)
    · rw [heq] at hmem
      cases hmem
  exit := by
    rintro _ files last ⟨before, blocks, behind, rfl, hnumber, hfile⟩
    refine ⟨before, blocks, behind, rfl, hnumber, ?_⟩
    -- the target is at the other file now
    have hother : number ≠ (dumps before + 1) % 2 := by omega
    rw [dumps_dumped, Function.update_of_ne hother]
    exact hfile

theorem lasting_reported (toCover : Block → Bool) (testcase number : ℕ) (file : LogFile Block)
    (covered : List Block) : Lasting (Reported toCover testcase number file covered) where
  block block := by
    rintro ⟨before, blocks, behind, rfl, hreported⟩
    exact ⟨before, blocks, behind ++ [block], by simp, hreported⟩
  vanish h _ := h
  exit _ h := h

/-- The reset begins to cover. -/
theorem AtFile.reset {number : ℕ} {history : History Block} {files : LogFiles Block}
    (h : AtFile number history files) (testcase : ℕ) :
    Covering testcase number (history ++ [.nudge NUDGE_RESET_COVERAGE testcase]) files :=
  ⟨history, [], rfl, h⟩

/-- The dump writes what was covered since the reset, and nothing else. -/
theorem Covering.dump {testcase number : ℕ} {history : History Block} {files : LogFiles Block}
    (h : Covering testcase number history files) :
    Dumped testcase number (history ++ [.nudge NUDGE_DUMP_CURRENT_COVERAGE testcase])
      (dump_current_coverage history files) := by
  obtain ⟨before, blocks, rfl, hnumber⟩ := h
  refine ⟨before, blocks, [], by simp, hnumber, ?_⟩
  have hcoverage : coverage (before ++ .nudge NUDGE_RESET_COVERAGE testcase ::
      blocks.map TargetEvent.block) = blocks := by
    rw [coverage, coverageFrom_append, coverageFrom, coverageFrom_blocks, List.nil_append]
  have hother : number ≠ (dumps before + 1) % 2 := by omega
  rw [dump_current_coverage, dumps_covering, hcoverage, Function.update_of_ne hother, hnumber,
    Function.update_self]
  simp

/-- Behind the dump the target is at the other file. -/
theorem Reported.atFile {toCover : Block → Bool} {testcase number : ℕ} {file : LogFile Block}
    {covered : List Block} {history : History Block} {files : LogFiles Block}
    (h : Reported toCover testcase number file covered history files) :
    AtFile ((number + 1) % 2) history files := by
  obtain ⟨before, blocks, behind, rfl, hnumber, -⟩ := h
  rw [AtFile, dumps_dumped]
  omega

/-- What was dumped is read, if its file is there. -/
theorem Dumped.reported {testcase number : ℕ} {history : History Block} {files : LogFiles Block}
    {file : LogFile Block} (h : Dumped testcase number history files)
    (hfile : files number = some file) :
    ∃ blocks, file = .completed blocks ∧ ∀ toCover : Block → Bool,
      Reported toCover testcase number file (blocks.filter toCover) history files := by
  obtain ⟨before, blocks, behind, hhistory, hnumber, hcontents⟩ := h
  have heq := hcontents file hfile
  exact ⟨blocks, heq, fun toCover => ⟨before, blocks, behind, hhistory, hnumber, heq, rfl⟩⟩

/-! ### What happens to a target -/

/-- The changes to a target and its files. -/
inductive Change (t : Target Block) (files : LogFiles Block) :
    Target Block → LogFiles Block → Prop
  | covered (block : Block) :
      Change t files { t with history := t.history ++ [.block block] } files
  | handled (i : ℕ) (nudge : Nudge) (testcase : ℕ) (h : t.pending[i]? = some (nudge, testcase)) :
      Change t files
        ({ t with pending := t.pending.eraseIdx i }.event_nudge nudge testcase files).1
        ({ t with pending := t.pending.eraseIdx i }.event_nudge nudge testcase files).2
  | ended (alive : Bool) (file : Option (LogFile Block)) :
      Change t files { t with alive := alive }
        (Function.update files (dumps t.history % 2) file)
  | vanished (alive : Bool) (files' : LogFiles Block)
      (h : ∀ number, files' number = files number ∨ files' number = none) :
      Change t files { t with alive := alive } files'

theorem World.living_eq_some {world : World Block} {t : Target Block}
    (h : world.living = some t) : world.target = some t ∧ t.alive = true :=
  Option.filter_eq_some_iff.mp h

theorem World.setFile_files (world : World Block) (pid number : ℕ) (file : Option (LogFile Block)) :
    (world.setFile pid number file).files pid =
      Function.update (world.files pid) number file :=
  Function.update_self pid _ world.files

/-- The process id stays, and what happens elsewhere does not touch the target. -/
theorem World.happens_change {world world' : World Block} {event : Happening Block}
    {t : Target Block} (ht : world.target = some t) (h : world.happens event = some world') :
    ∃ t', world'.target = some t' ∧ t'.pid = t.pid ∧
      Change t (world.files t.pid) t' (world'.files t.pid) := by
  have hliving {t' : Target Block} (h' : world.living = some t') : t' = t :=
    Option.some.inj ((living_eq_some h').1.symm.trans ht)
  cases event with
  | covers block =>
    obtain ⟨t', h', rfl⟩ := Option.map_eq_some_iff.mp h
    obtain rfl := hliving h'
    exact ⟨_, rfl, rfl, .covered block⟩
  | handles i =>
    obtain ⟨t', h', h⟩ := Option.bind_eq_some_iff.mp h
    obtain rfl := hliving h'
    obtain ⟨⟨nudge, testcase⟩, hpending, rfl⟩ := Option.map_eq_some_iff.mp h
    refine ⟨_, rfl, rfl, ?_⟩
    simp only [Function.update_self]
    exact .handled i nudge testcase hpending
  | exits =>
    obtain ⟨t', h', rfl⟩ := Option.map_eq_some_iff.mp h
    obtain rfl := hliving h'
    refine ⟨_, rfl, rfl, ?_⟩
    rw [setFile_files]
    exact .ended false _
  | dies =>
    obtain ⟨t', h', rfl⟩ := Option.map_eq_some_iff.mp h
    obtain rfl := hliving h'
    exact ⟨_, rfl, rfl, .vanished false _ fun _ => .inl rfl⟩
  | vanishes pid number =>
    obtain rfl := Option.some.inj h
    refine ⟨t, ht, rfl, .vanished t.alive _ fun other => ?_⟩
    by_cases hpid : pid = t.pid
    · subst hpid
      rw [setFile_files]
      by_cases hnumber : other = number
      · exact .inr (by rw [hnumber, Function.update_self])
      · exact .inl (Function.update_of_ne hnumber _ _)
    · exact .inl (congrFun (Function.update_of_ne (Ne.symm hpid) _ _) other)
  | writes pid number file =>
    simp only [happens] at h
    split_ifs at h with hpid
    obtain rfl := Option.some.inj h
    have hother : t.pid ≠ pid := by simpa [ht] using hpid
    refine ⟨t, ht, rfl, .vanished t.alive _ fun other => .inl ?_⟩
    exact congrFun (Function.update_of_ne hother _ _) other

/-! ### The runner and its target -/

/-- The target with this process id, the nudges that are on their way to it and the answers
that are on their way back, with a fact about the rest. -/
def World.Running (world : World Block) (pid : ℕ) (pending : List (Nudge × ℕ)) (pipe : List Char)
    (P : History Block → LogFiles Block → Prop) : Prop :=
  ∃ t, world.target = some t ∧ t.pid = pid ∧ t.pending = pending ∧ t.pipe = pipe ∧
    P t.history (world.files pid)

variable {world world' : World Block} {event : Happening Block} {pid testcase : ℕ}
  {pending : List (Nudge × ℕ)} {pipe : List Char} {P Q : History Block → LogFiles Block → Prop}

theorem World.Running.imp (hPQ : ∀ history files, P history files → Q history files)
    (h : world.Running pid pending pipe P) : world.Running pid pending pipe Q := by
  obtain ⟨t, ht, hpid, hpending, hpipe, hfact⟩ := h
  exact ⟨t, ht, hpid, hpending, hpipe, hPQ _ _ hfact⟩

/-- Without a nudge, a lasting fact lasts. -/
theorem World.Running.quiet (hP : Lasting P) (h : world.Running pid [] pipe P)
    (hstep : world.happens event = some world') : world'.Running pid [] pipe P := by
  obtain ⟨t, ht, rfl, hpending, rfl, hfact⟩ := h
  obtain ⟨t', ht', hpid, hchange⟩ := happens_change ht hstep
  refine ⟨t', ht', hpid, ?_⟩
  generalize world'.files t.pid = files' at hchange
  cases hchange with
  | covered block => exact ⟨hpending, rfl, hP.block block hfact⟩
  | handled i nudge testcase h => simp [hpending] at h
  | ended alive file => exact ⟨hpending, rfl, hP.exit file hfact⟩
  | vanished alive files' h => exact ⟨hpending, rfl, hP.vanish hfact h⟩

/-- What the runner knows between a nudge and its answer: the nudge was not handled, it was
sent to a dead target, or it was handled. -/
def World.Waiting (world : World Block) (pid : ℕ) (nudge : Nudge) (testcase : ℕ)
    (P Q : History Block → LogFiles Block → Prop) : Prop :=
  world.Running pid [(nudge, testcase)] [] P ∨ world.Running pid [] [] (fun _ _ => True) ∨
    world.Running pid [] [nudge.response] Q

/-- The nudge carries a fact that lasts to another one that lasts. -/
structure Carries (nudge : Nudge) (testcase : ℕ)
    (P Q : History Block → LogFiles Block → Prop) : Prop where
  before : Lasting P
  behind : Lasting Q
  carries : ∀ (t : Target Block) (files : LogFiles Block), P t.history files →
    Q (t.event_nudge nudge testcase files).1.history (t.event_nudge nudge testcase files).2

theorem lasting_true : Lasting (fun (_ : History Block) _ => True) :=
  ⟨fun _ _ => trivial, fun _ _ => trivial, fun _ _ => trivial⟩

theorem World.Waiting.happens {nudge : Nudge} (hPQ : Carries nudge testcase P Q)
    (h : world.Waiting pid nudge testcase P Q) (hstep : world.happens event = some world') :
    world'.Waiting pid nudge testcase P Q := by
  rcases h with ⟨t, ht, rfl, hpending, hpipe, hfact⟩ | h | h
  · obtain ⟨t', ht', hpid, hchange⟩ := happens_change ht hstep
    generalize hfiles : world'.files t.pid = files' at hchange
    cases hchange with
    | covered block =>
      exact .inl ⟨_, ht', hpid, hpending, hpipe, hfiles ▸ hPQ.before.block block hfact⟩
    | handled i nudge' testcase' h =>
      obtain ⟨rfl, rfl, rfl⟩ : i = 0 ∧ nudge' = nudge ∧ testcase' = testcase := by
        rw [hpending, List.getElem?_singleton] at h
        split_ifs at h with hi
        simp_all
      refine .inr (.inr ⟨_, ht', hpid, ?_, ?_, ?_⟩)
      · simp [Target.event_nudge, hpending]
      · simp [Target.event_nudge, hpipe]
      · rw [hfiles]
        exact hPQ.carries _ _ hfact
    | ended alive file =>
      exact .inl ⟨_, ht', hpid, hpending, hpipe, hfiles ▸ hPQ.before.exit file hfact⟩
    | vanished alive files' h =>
      exact .inl ⟨_, ht', hpid, hpending, hpipe, hfiles ▸ hPQ.before.vanish hfact h⟩
  · exact .inr (.inl (h.quiet lasting_true hstep))
  · exact .inr (.inr (h.quiet hPQ.behind hstep))

theorem carries_reset (testcase number : ℕ) :
    Carries NUDGE_RESET_COVERAGE testcase (@AtFile Block number)
      (Covering testcase number) where
  before := lasting_atFile number
  behind := lasting_covering testcase number
  carries _ _ h := h.reset testcase

theorem carries_dump (testcase number : ℕ) :
    Carries NUDGE_DUMP_CURRENT_COVERAGE testcase (@Covering Block testcase number)
      (Dumped testcase number) where
  before := lasting_covering testcase number
  behind := lasting_dumped testcase number
  carries _ _ h := h.dump

end Fluffi.Runner
