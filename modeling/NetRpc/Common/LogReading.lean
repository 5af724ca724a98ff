import Mathlib.Data.List.DropRight
import NetRpc.Common.CString
import NetRpc.Common.LogRotation
import NetRpc.Common.Logger
import NetRpc.Foundation.Grouping

/-! # Reading the log back

A log is spread over the files of its days and their numbers. Whatever the
sizes, the files in the order of days and numbers hold the lines in the order
in which they were pushed, and the two logs do not share a file.

Files are taken to open and to be written without failures, by this process alone.
-/

namespace NetRpc

/-- The day and the number of a log file. -/
structure LogFile where
  date : Bytes
  no : Nat
deriving DecidableEq

namespace LogFile

def Before (first second : LogFile) : Prop :=
  first.date < second.date ∨ first.date = second.date ∧ first.no < second.no

def name (filePath fileName : Bytes) (file : LogFile) : Bytes :=
  filePath ++ fileName ++ ascii "_" ++ file.date ++ ascii "_log." ++ ascii (toString file.no)

variable {first second third : LogFile}

theorem Before.asymm (before : first.Before second) : ¬second.Before first := by
  intro before
  rcases before with later | ⟨same, less⟩
  · rcases before with earlier | ⟨same, _⟩
    · exact List.lt_asymm earlier later
    · exact List.lt_irrefl _ (same ▸ later)
  · rcases before with earlier | ⟨_, more⟩
    · exact List.lt_irrefl _ (same ▸ earlier)
    · exact Nat.lt_asymm less more

theorem Before.trans (before : first.Before second) (after : second.Before third) :
    first.Before third := by
  rcases before with earlier | ⟨same, less⟩
  · rcases after with later | ⟨same, _⟩
    · exact .inl (List.lt_trans earlier later)
    · exact .inl (same ▸ earlier)
  · rcases after with later | ⟨again, more⟩
    · exact .inl (same ▸ later)
    · exact .inr ⟨same.trans again, Nat.lt_trans less more⟩

/-- A later day, or the same day and no smaller number. -/
theorem eq_or_before (days : first.date ≤ second.date)
    (numbers : first.date = second.date → first.no ≤ second.no) :
    first = second ∨ first.Before second := by
  rcases List.le_iff_lt_or_eq.mp days with earlier | same
  · exact .inr (.inl earlier)
  · rcases Nat.lt_or_eq_of_le (numbers same) with less | equal
    · exact .inr (.inr ⟨same, less⟩)
    · rcases first with ⟨date, no⟩
      cases same
      cases equal
      exact .inl rfl

/-- A number has no dot in it, so the last dot of a name tells where it starts. -/
theorem digits_at_end (left : Bytes) (no : Nat) :
    (left ++ ascii "." ++ decimal no).rtakeWhile isDigit = decimal no := by
  have all : ∀ byte ∈ (decimal no).reverse, isDigit byte = true :=
    fun byte member => isDigit_of_mem_decimal (List.mem_reverse.mp member)
  rw [List.rtakeWhile, List.reverse_append, List.reverse_append, List.takeWhile_append_of_pos all]
  have dot : (ascii ".").reverse ++ left.reverse = 0x2e :: left.reverse := rfl
  have stops : ¬isDigit 0x2e = true := by decide
  rw [dot, List.takeWhile_cons_of_neg stops, List.append_nil, List.reverse_reverse]

theorem name_inj (filePath fileName : Bytes) :
    first.name filePath fileName = second.name filePath fileName ↔ first = second := by
  constructor
  · intro same
    have parts : ∀ file : LogFile, file.name filePath fileName =
        filePath ++ fileName ++ ascii "_" ++ file.date ++ ascii "_log" ++ ascii "." ++
          decimal file.no := by
      intro file
      have split : ascii "_log." = ascii "_log" ++ ascii "." := rfl
      rw [name, split, ← List.append_assoc]
      rfl
    rw [parts, parts] at same
    have numbers : decimal first.no = decimal second.no := by
      rw [← digits_at_end _ first.no, same, digits_at_end]
    have no : first.no = second.no := by
      rw [← digits_decimal first.no, numbers, digits_decimal]
    rw [numbers] at same
    simp only [List.append_assoc, List.append_cancel_left_eq, List.append_cancel_right_eq] at same
    rcases first with ⟨date, number⟩
    cases same
    cases no
    rfl
  · rintro rfl
    rfl

end LogFile

/-- What the thread of a log has put on the disk, and where it goes on. -/
structure LogOutput where
  filePath : Bytes
  fileName : Bytes
  date : Bytes
  no : Nat
  fileHandler : Option Bytes
  fwrites : List FileWrite
  isWriting : Bool

namespace AsyncLogger

def output (logger : AsyncLogger) : LogOutput where
  filePath := logger.filePath
  fileName := logger.fileName
  date := logger.date
  no := logger.no
  fileHandler := logger.fileHandler
  fwrites := logger.fwrites
  isWriting :=
    match logger.point with
    | .writing _ => true
    | _ => false

theorem wake_output (logger : AsyncLogger) : logger.wake.output = logger.output := by
  unfold wake
  split
  · next waiting =>
      simp only [output, waiting]
  · rfl

theorem pushLogBuffer_output (logger : AsyncLogger) (vec : List Bytes) :
    (logger.pushLogBuffer vec).output = logger.output :=
  wake_output _

end AsyncLogger

/-- Texts with the files that they go to. -/
def LogFile.fwrites (filePath fileName : Bytes) (entries : List (LogFile × Bytes)) :
    List FileWrite :=
  entries.map fun entry => ⟨some (entry.1.name filePath fileName), entry.2⟩

/-- Every text has gone to a file of its own day, and no file comes after the
one that is open. -/
structure LogOutput.Filed (output : LogOutput) (entries : List (LogFile × Bytes))
    (files : List LogFile) : Prop where
  fwrites : output.fwrites = LogFile.fwrites output.filePath output.fileName entries
  groups : Grouping.Groups LogFile.Before Prod.fst entries files
  opened : output.fileHandler = none ∧ files = [] ∨
    ∃ current : LogFile, output.fileHandler = some (current.name output.filePath output.fileName) ∧
      current.date = output.date ∧ current.no ≤ output.no ∧
      ∀ file ∈ files, file = current ∨ file.Before current
  writing : output.isWriting = true → output.fileHandler ≠ none

namespace AsyncLogger

variable {logger next : AsyncLogger} {date : Bytes} {ftell : Int}
  {entries : List (LogFile × Bytes)} {files : List LogFile}

/-- The thread turns to the file with the current number, or keeps the one it has. -/
theorem openFile_cases (logger : AsyncLogger) (date : Bytes) (ftell : Int) :
    (∃ file : LogFile, file.date = date ∧
      file.no = (if date = logger.date then logger.no else 0) ∧
      file.no ≤ (logger.openFile date ftell).no ∧
      (logger.openFile date ftell).fileHandler =
        some (file.name logger.filePath logger.fileName)) ∨
    logger.fileHandler ≠ none ∧ date = logger.date ∧
      (logger.openFile date ftell).no = logger.no ∧
      (logger.openFile date ftell).fileHandler = logger.fileHandler := by
  by_cases full : logger.maxFileSize < ftell
  · refine .inl ⟨⟨date, _⟩, rfl, rfl, ?_, ?_⟩
    · rw [openFile_no, if_pos full]
      exact Nat.le_succ _
    · rw [openFile_fileHandler, if_pos full]
      rfl
  · rw [openFile_no, openFile_fileHandler, if_neg full, if_neg full, currentFile]
    by_cases reopen : logger.reopenFlag || date ≠ logger.date || logger.fileHandler.isNone
    · rw [if_pos reopen]
      exact .inl ⟨⟨date, _⟩, rfl, rfl, Nat.le_refl _, rfl⟩
    · rw [if_neg reopen]
      simp only [Bool.or_eq_true, decide_eq_true_eq, not_or, not_not,
        Option.isNone_iff_eq_none] at reopen
      exact .inr ⟨reopen.2, reopen.1.2, if_pos reopen.1.2, rfl⟩

theorem openFile_filed (filed : logger.output.Filed entries files) (later : logger.date ≤ date)
    (tmp : List Bytes) :
    { logger.openFile date ftell with point := .writing tmp }.output.Filed entries files := by
  rcases openFile_cases logger date ftell with
    ⟨file, sameDate, number, within, opened⟩ | ⟨some, sameDate, no, opened⟩
  · refine ⟨filed.fwrites, filed.groups, .inr ⟨file, opened, sameDate, within, ?_⟩,
      fun _ none => ?_⟩
    · intro other member
      rcases filed.opened with ⟨_, empty⟩ | ⟨current, _, day, bound, newest⟩
      · rw [empty] at member
        cases member
      · have onward : current = file ∨ current.Before file := by
          apply LogFile.eq_or_before
          · rw [sameDate, day]
            exact later
          · intro same
            have today : date = logger.date := sameDate.symm.trans (same.symm.trans day)
            rw [number, if_pos today]
            exact bound
        rcases newest other member with rfl | before
        · exact onward
        · rcases onward with rfl | after
          · exact .inr before
          · exact .inr (before.trans after)
    · cases opened.symm.trans none
  · refine ⟨filed.fwrites, filed.groups, ?_, fun _ none => some (opened.symm.trans none)⟩
    rcases filed.opened with closed | ⟨current, handler, day, bound, newest⟩
    · exact absurd closed.1 some
    · exact .inr ⟨current, opened.trans handler, day.trans sameDate.symm,
        bound.trans (Nat.le_of_eq no.symm), newest⟩

theorem write_filed {line : Bytes} {rest : List Bytes} (filed : logger.output.Filed entries files)
    (writing : logger.point = .writing (line :: rest)) :
    ∃ entries files,
      { logger.write line with point := .writing rest }.output.Filed entries files := by
  have isWriting : logger.output.isWriting = true := by
    simp only [output, writing]
  have some := filed.writing isWriting
  rcases filed.opened with ⟨none, _⟩ | ⟨current, handler, day, bound, newest⟩
  · exact absurd none some
  by_cases empty : line.isEmpty
  · refine ⟨entries, files, ?_, filed.groups, .inr ⟨current, handler, day, bound, newest⟩,
      fun _ => some⟩
    have unwritten : (logger.write line).fwrites = logger.fwrites := if_pos empty
    exact unwritten.trans filed.fwrites
  · have added : ∃ next,
        Grouping.Groups LogFile.Before Prod.fst (entries ++ [(current, line)]) next ∧
        ∀ file ∈ next, file ∈ files ∨ file = current :=
      filed.groups.append (fun _ _ => LogFile.Before.asymm) newest
    rcases added with ⟨next, groups, known⟩
    refine ⟨_, next, ?_, groups, .inr ⟨current, handler, day, bound, ?_⟩, fun _ => some⟩
    · have written : (logger.write line).fwrites =
          logger.fwrites ++ [⟨logger.fileHandler, line⟩] := if_neg empty
      have before : logger.fwrites = LogFile.fwrites logger.filePath logger.fileName entries :=
        filed.fwrites
      have opened : logger.fileHandler =
          Option.some (current.name logger.filePath logger.fileName) := handler
      show (logger.write line).fwrites = LogFile.fwrites logger.filePath logger.fileName _
      rw [written, before, opened, LogFile.fwrites, LogFile.fwrites, List.map_append]
      rfl
    · intro file member
      rcases known file member with before | now
      · exact newest file before
      · exact .inl now

theorem loop_filed (filed : logger.output.Filed entries files) (later : logger.date ≤ date)
    (looped : logger.loop date ftell = some next) :
    ∃ entries files, next.output.Filed entries files := by
  cases loop_cases looped with
  | openFile tmp taken => exact ⟨entries, files, openFile_filed filed later tmp⟩
  | write line rest writing => exact write_filed filed writing
  | wait | take | flush | again | finish =>
      exact ⟨entries, files, { filed with writing := fun impossible => by cases impossible }⟩

/-- A step of the thread only changes the day to the one that it reads. -/
theorem loop_frame (looped : logger.loop date ftell = some next) :
    next.filePath = logger.filePath ∧ next.fileName = logger.fileName ∧
      (next.date = logger.date ∨ next.date = date) := by
  cases loop_cases looped with
  | openFile => exact ⟨rfl, rfl, .inr rfl⟩
  | write | wait | take | flush | again | finish => exact ⟨rfl, rfl, .inl rfl⟩

/-- The file of an entry holds the texts of its group. -/
theorem contents_fwrites {filePath fileName : Bytes}
    (fwrites : logger.fwrites = LogFile.fwrites filePath fileName entries) (file : LogFile) :
    logger.contents (some (file.name filePath fileName)) =
      (Grouping.group Prod.fst entries file).flatMap Prod.snd := by
  have named : ∀ entry : LogFile × Bytes,
      decide (some (entry.1.name filePath fileName) = some (file.name filePath fileName)) =
        decide (entry.1 = file) := by
    intro entry
    simp only [Option.some.injEq, LogFile.name_inj]
  rw [contents, fwrites, LogFile.fwrites, List.filter_map, List.flatMap_map, Grouping.group]
  simp only [Function.comp_def, named]

/-- No text has gone to a file with another name. -/
theorem contents_eq_nil {filePath fileName name : Bytes}
    (fwrites : logger.fwrites = LogFile.fwrites filePath fileName entries)
    (other : ∀ file : LogFile, file.name filePath fileName ≠ name) :
    logger.contents (some name) = [] := by
  rw [contents, fwrites, LogFile.fwrites, List.filter_map, List.flatMap_map,
    List.filter_eq_nil_iff.mpr]
  · rfl
  · intro entry _
    simpa using other entry.1

/-- The files in their order hold the lines written, one after another. -/
theorem flatMap_contents {filePath fileName : Bytes} (sound : logger.Sound)
    (fwrites : logger.fwrites = LogFile.fwrites filePath fileName entries)
    (groups : Grouping.Groups LogFile.Before Prod.fst entries files) :
    files.flatMap (fun file => logger.contents (some (file.name filePath fileName))) =
      logger.written.flatten := by
  have texts : entries.map Prod.snd = logger.written.filter fun line => !line.isEmpty := by
    rw [← sound.fwrites, fwrites, LogFile.fwrites, List.map_map]
    rfl
  simp only [contents_fwrites fwrites]
  rw [← List.flatMap_assoc, groups.whole, List.flatMap_def, texts,
    List.flatten_filter_not_isEmpty]

end AsyncLogger

/-- The day that the thread of a log reads. -/
def LogStep.days (target : LogTarget) : LogStep → List Bytes
  | .loop other date _ => if other = target then [date] else []
  | _ => []

def LogTarget.suffix : LogTarget → Bytes
  | .rpc => ascii "_rpc"
  | .app => ascii "_app"

namespace Logger

variable {state next : Logger} {event : LogStep}

theorem syncStep_output (state : Logger) (point : SyncPoint) (target : LogTarget) :
    ((state.syncStep point).1.asyncLogger target).output =
      (state.asyncLogger target).output := by
  cases point with
  | swapping other => rfl
  | pushing other tmp =>
      simp only [syncStep]
      split
      · rfl
      · exact setAsyncLogger_same AsyncLogger.output (AsyncLogger.pushLogBuffer_output _ _) target

/-- Only the thread of a log writes, and it turns to another file only in its own steps. -/
theorem step_output (step : state.step event = some next) (target : LogTarget) :
    (∃ date ftell, event = .loop target date ftell ∧
      (state.asyncLogger target).loop date ftell = some (next.asyncLogger target)) ∨
    (next.asyncLogger target).output = (state.asyncLogger target).output := by
  cases event with
  | pushLog msg =>
      cases step
      unfold pushLog
      split <;> exact .inr rfl
  | pushAppLog msg =>
      cases step
      exact .inr rfl
  | syncLoop =>
      cases step
      unfold syncLoop
      split
      · exact .inr rfl
      · exact .inr (syncStep_output state _ target)
  | loop other date ftell =>
      rcases Option.map_eq_some_iff.mp step with ⟨logger, looped, rfl⟩
      by_cases same : target = other
      · subst same
        rw [setAsyncLogger_self]
        exact .inl ⟨date, ftell, rfl, looped⟩
      · rw [setAsyncLogger_other same]
        exact .inr rfl
  | wake other =>
      cases step
      exact .inr (setAsyncLogger_same AsyncLogger.output (AsyncLogger.wake_output _) target)
  | flush =>
      cases flushStep_cases step with
      | call => exact .inr rfl
      | sync point => exact .inr (syncStep_output state point target)
      | stop other =>
          have stopped : (state.asyncLogger other).stop.output =
              (state.asyncLogger other).output := rfl
          exact .inr (setAsyncLogger_same AsyncLogger.output stopped target)

/-- The texts of a log and the day of its open file, after these steps. -/
structure Kept (filePath fileName : Bytes) (target : LogTarget) (events : List LogStep)
    (logger : AsyncLogger) : Prop where
  filePath_eq : logger.filePath = filePath
  fileName_eq : logger.fileName = fileName ++ target.suffix
  day : logger.date = [] ∨ logger.date ∈ events.flatMap (LogStep.days target)
  filed : ∃ entries files, logger.output.Filed entries files

theorem initial_kept (filePath fileName : Bytes) (maxFileSize : Int) (target : LogTarget) :
    Kept filePath fileName target []
      ((initial fileName filePath maxFileSize).asyncLogger target) := by
  cases target <;>
    exact ⟨rfl, rfl, .inl rfl, [], [], rfl, .nil, .inl ⟨rfl, rfl⟩, fun impossible => by
      cases impossible⟩

theorem Kept.step {filePath fileName : Bytes} {target : LogTarget} {events : List LogStep}
    (kept : Kept filePath fileName target events (state.asyncLogger target))
    (step : state.step event = some next)
    (clock : ((events ++ [event]).flatMap (LogStep.days target)).Pairwise (· ≤ ·)) :
    Kept filePath fileName target (events ++ [event]) (next.asyncLogger target) := by
  rw [List.flatMap_append, List.flatMap_singleton] at clock
  have stays : ∀ day ∈ events.flatMap (LogStep.days target),
      day ∈ (events ++ [event]).flatMap (LogStep.days target) := by
    intro day member
    rw [List.flatMap_append]
    exact List.mem_append_left _ member
  rcases kept.filed with ⟨entries, files, filed⟩
  rcases step_output step target with ⟨date, ftell, rfl, looped⟩ | same
  · have today : LogStep.days target (.loop target date ftell) = [date] := if_pos rfl
    have later : (state.asyncLogger target).date ≤ date := by
      rcases kept.day with none | member
      · rw [none]
        exact List.nil_le date
      · rw [today] at clock
        exact (List.pairwise_append.mp clock).2.2 _ member date List.mem_cons_self
    rcases AsyncLogger.loop_frame looped with ⟨filePath_eq, fileName_eq, day⟩
    refine ⟨filePath_eq.trans kept.filePath_eq, fileName_eq.trans kept.fileName_eq, ?_,
      AsyncLogger.loop_filed filed later looped⟩
    rcases day with before | now
    · rw [before]
      exact kept.day.imp_right (stays _)
    · rw [now, List.flatMap_append, List.flatMap_singleton, today]
      exact .inr (List.mem_append_right _ List.mem_cons_self)
  · have filePath_eq : (next.asyncLogger target).filePath = (state.asyncLogger target).filePath :=
      congrArg LogOutput.filePath same
    have fileName_eq : (next.asyncLogger target).fileName = (state.asyncLogger target).fileName :=
      congrArg LogOutput.fileName same
    have day : (next.asyncLogger target).date = (state.asyncLogger target).date :=
      congrArg LogOutput.date same
    refine ⟨filePath_eq.trans kept.filePath_eq, fileName_eq.trans kept.fileName_eq, ?_,
      entries, files, same ▸ filed⟩
    rw [day]
    exact kept.day.imp_right (stays _)

theorem run_kept {filePath fileName : Bytes} {maxFileSize : Int} {events : List LogStep}
    (run : logging.Run (.initial fileName filePath maxFileSize) events state) (target : LogTarget)
    (clock : (events.flatMap (LogStep.days target)).Pairwise (· ≤ ·)) :
    Kept filePath fileName target events (state.asyncLogger target) := by
  have history : (events.flatMap (LogStep.days target)).Pairwise (· ≤ ·) →
      Kept filePath fileName target events (state.asyncLogger target) := by
    apply run.history fun events state =>
      (events.flatMap (LogStep.days target)).Pairwise (· ≤ ·) →
        Kept filePath fileName target events (state.asyncLogger target)
    · intro events current event next before step clock
      have earlier := clock
      rw [List.flatMap_append] at earlier
      exact (before (List.pairwise_append.mp earlier).1).step step clock
    · intro _
      exact initial_kept filePath fileName maxFileSize target
  exact history clock

/-! ## Both logs together -/

/-- The file of a log. -/
def fileOf (filePath fileName : Bytes) (target : LogTarget) (file : LogFile) : Bytes :=
  file.name filePath (fileName ++ target.suffix)

/-- What either thread has written to a file. -/
def fileContents (state : Logger) (name : Bytes) : Bytes :=
  (state.asyncLogger .rpc).contents (some name) ++ (state.asyncLogger .app).contents (some name)

/-- The lines of a log that are not in a file yet. -/
def unwritten (state : Logger) (target : LogTarget) : List Bytes :=
  (state.asyncLogger target).point.held ++ (state.asyncLogger target).buffer.flatten ++
    SyncPoint.held target state.timer ++ state.buffer target

theorem suffix_append_ne {target other : LogTarget} (different : target ≠ other)
    (left right : Bytes) : target.suffix ++ left ≠ other.suffix ++ right := by
  have rpc : ascii "_rpc" = [0x5f, 0x72, 0x70, 0x63] := rfl
  have app : ascii "_app" = [0x5f, 0x61, 0x70, 0x70] := rfl
  cases target <;> cases other
  · contradiction
  · simp [LogTarget.suffix, rpc, app]
  · simp [LogTarget.suffix, rpc, app]
  · contradiction

theorem fileOf_ne {target other : LogTarget} (different : target ≠ other)
    (filePath fileName : Bytes) (file another : LogFile) :
    fileOf filePath fileName target file ≠ fileOf filePath fileName other another := by
  simp only [fileOf, LogFile.name, List.append_assoc, ne_eq, List.append_cancel_left_eq]
  exact suffix_append_ne different _ _

/-- What is in a file of a log has been written by the thread of that log. -/
theorem fileContents_eq {filePath fileName : Bytes} {events : List LogStep}
    (kept : ∀ target, Kept filePath fileName target events (state.asyncLogger target))
    (target : LogTarget) (file : LogFile) :
    state.fileContents (fileOf filePath fileName target file) =
      (state.asyncLogger target).contents (some (fileOf filePath fileName target file)) := by
  have none : ∀ other, other ≠ target →
      (state.asyncLogger other).contents (some (fileOf filePath fileName target file)) = [] := by
    intro other different
    rcases (kept other).filed with ⟨entries, files, filed⟩
    apply AsyncLogger.contents_eq_nil filed.fwrites
    intro another same
    apply fileOf_ne different filePath fileName another file
    rw [← same, fileOf]
    show _ = LogFile.name (state.asyncLogger other).filePath (state.asyncLogger other).fileName _
    rw [(kept other).filePath_eq, (kept other).fileName_eq]
  cases target with
  | rpc => rw [fileContents, none .app nofun, List.append_nil]
  | app => rw [fileContents, none .rpc nofun, List.nil_append]

/-- However the threads take turns, and whatever sizes are read, the files of a log in the
order of their days and numbers, and then the lines that are on their way, are the
lines that have been pushed, as long as the clock does not go back. -/
theorem log_reads_back {filePath fileName : Bytes} {maxFileSize : Int} {events : List LogStep}
    {final : Logger} (run : logging.Run (.initial fileName filePath maxFileSize) events final)
    (running : .flush ∉ events)
    (clock : ∀ target, (events.flatMap (LogStep.days target)).Pairwise (· ≤ ·))
    (target : LogTarget) :
    ∃ files : List LogFile, files.Pairwise LogFile.Before ∧
      (files.flatMap fun file => final.fileContents (fileOf filePath fileName target file)) ++
        (final.unwritten target).flatten = (pushedLines target events).flatten := by
  have kept := fun target => run_kept run target (clock target)
  have conserved := (run_lines run running).2 target
  rcases (kept target).filed with ⟨entries, files, filed⟩
  have own : ∀ file : LogFile, final.fileContents (fileOf filePath fileName target file) =
      (final.asyncLogger target).contents (some (file.name (final.asyncLogger target).filePath
        (final.asyncLogger target).fileName)) := by
    intro file
    rw [fileContents_eq kept, (kept target).filePath_eq, (kept target).fileName_eq, fileOf]
  have written : (files.flatMap fun file =>
      final.fileContents (fileOf filePath fileName target file)) =
        (final.asyncLogger target).written.flatten := by
    simp only [own]
    exact AsyncLogger.flatMap_contents (run_sound run target) filed.fwrites filed.groups
  refine ⟨files, filed.groups.ascending, ?_⟩
  rw [written, ← conserved, lines, AsyncLogger.lines, unwritten]
  simp only [List.flatten_append, List.append_assoc]

/-- A line of one day, a line of the next, and a line that is still in the buffer. -/
def overNight : List LogStep :=
  [.pushLog [1], .syncLoop, .syncLoop, .syncLoop] ++
    List.replicate 5 (.loop .rpc (ascii "20240306") 0) ++
    [.syncLoop, .syncLoop, .pushLog [2], .syncLoop, .syncLoop, .syncLoop] ++
    List.replicate 3 (.loop .rpc (ascii "20240307") 1) ++ [.pushLog [3]]

theorem log_reads_back_overNight :
    ∃ final : Logger, (final.asyncLogger .rpc).fwrites =
        [⟨some (ascii "./server_rpc_20240306_log.0"), [1]⟩,
          ⟨some (ascii "./server_rpc_20240307_log.0"), [2]⟩] ∧
      ∃ files : List LogFile, files.Pairwise LogFile.Before ∧
        (files.flatMap fun file =>
            final.fileContents (fileOf (ascii "./") (ascii "server") .rpc file)) ++
          (final.unwritten .rpc).flatten = [1, 2, 3] := by
  have computed : (overNight.foldlM step (initial (ascii "server") (ascii "./") 100)).map
      (fun final => (final.asyncLogger .rpc).fwrites) =
        some [⟨some (ascii "./server_rpc_20240306_log.0"), [1]⟩,
          ⟨some (ascii "./server_rpc_20240307_log.0"), [2]⟩] := by
    decide +kernel
  rcases run_of_steps computed with ⟨final, run, fwrites⟩
  refine ⟨final, fwrites, log_reads_back run (by decide) ?_ .rpc⟩
  intro target
  cases target <;> decide

end Logger

end NetRpc
