import NetRpc.Common.AsyncLogger

/-! # Which file a batch goes to

The thread of a log is to close a file that has grown too large and to turn to
the next number. The name of the file is made before the size is looked at, and
where it should be made again it is only compared. So the first file of a day
is opened a second time.
-/

namespace NetRpc.AsyncLogger

variable {logger : AsyncLogger} {date : Bytes}

/-- A batch, with the day on which it is handled. -/
structure Batch where
  date : Bytes
  tmp : List Bytes
deriving DecidableEq

def Batch.text (batch : Batch) : Bytes :=
  batch.tmp.flatten

/-- The name of the file with number `no` of a day. -/
def logFileName (logger : AsyncLogger) (date : Bytes) (no : Nat) : Bytes :=
  logger.filePath ++ logger.fileName ++ ascii "_" ++ date ++ ascii "_log." ++
    ascii (toString no)

/-- The file that is open when its size is looked at. -/
def currentFile (logger : AsyncLogger) (date : Bytes) : Option Bytes :=
  if logger.reopenFlag || date ≠ logger.date || logger.fileHandler.isNone then
    some (logger.logFileName date (if date = logger.date then logger.no else 0))
  else
    logger.fileHandler

/-- What has been written to a file. -/
def contents (logger : AsyncLogger) (file : Option Bytes) : Bytes :=
  (logger.fwrites.filter fun fwrite => fwrite.fileHandler = file).flatMap FileWrite.text

/-- The size of the open file. -/
def ftell (logger : AsyncLogger) (date : Bytes) : Int :=
  (logger.contents (logger.currentFile date)).length

/-- One turn of `Loop`, from the batch taken to the file flushed. -/
def handle (logger : AsyncLogger) (batch : Batch) : AsyncLogger :=
  batch.tmp.foldl write (logger.openFile batch.date (logger.ftell batch.date))

/-- Where a batch has gone, how much was in that file before, and the file that was
closed for its size. -/
structure BatchWrite extends Batch where
  file : Option Bytes
  before : Nat
  left : Option Bytes
deriving DecidableEq

def batchWrite (logger : AsyncLogger) (batch : Batch) : BatchWrite :=
  let opened := logger.openFile batch.date (logger.ftell batch.date)
  { batch with
    file := opened.fileHandler
    before := (logger.contents opened.fileHandler).length
    left :=
      if logger.maxFileSize < logger.ftell batch.date then logger.currentFile batch.date
      else none }

/-- A log with the batches it has handled. -/
structure Files where
  logger : AsyncLogger
  writes : List BatchWrite := []

def Files.handle (files : Files) (batch : Batch) : Files where
  logger := files.logger.handle batch
  writes := files.writes ++ [files.logger.batchWrite batch]

/-- The log that the constructor makes, before there are any files. -/
def Files.create (fileName filePath : Bytes) (maxFileSize : Int) : Files where
  logger := { fileName, filePath, maxFileSize }

def rotation : Transition.System Files Batch where
  Initial files := ∃ fileName filePath maxFileSize, files = .create fileName filePath maxFileSize
  Step current batch next := current.handle batch = next

/-- The batch finds room in its file. The numbers of a day are used one after
the other from zero. A file that was closed for its size is not written again. -/
structure Rotates (files : Files) (write : BatchWrite) : Prop where
  room : write.before ≤ files.logger.maxFileSize
  numbered : ∃ no, write.file = some (files.logger.logFileName write.date no) ∧
    ∀ earlier < no, ∃ other ∈ files.writes, other.date = write.date ∧
      other.file = some (files.logger.logFileName write.date earlier)
  notLeft : ∀ other ∈ files.writes ++ [write], other.left.isSome → other.left ≠ write.file

/-- What has been handled on a day. -/
def Files.textOn (files : Files) (date : Bytes) : Bytes :=
  (files.writes.filter fun write => write.date = date).flatMap fun write => write.text

/-- The earlier batches of the day do not go beyond the limit. -/
def Files.WithinLimit (files : Files) (batch : Batch) : Prop :=
  (files.textOn batch.date).length ≤ files.logger.maxFileSize

/-! ## Writing a batch -/

theorem foldl_write (tmp : List Bytes) (logger : AsyncLogger) :
    tmp.foldl write logger =
      { logger with
        fwrites := logger.fwrites ++
          (tmp.filter fun line => !line.isEmpty).map fun line => ⟨logger.fileHandler, line⟩
        written := logger.written ++ tmp } := by
  induction tmp generalizing logger with
  | nil => simp
  | cons line tmp induction =>
      rw [List.foldl_cons, induction]
      cases line with
      | nil => simp [write]
      | cons byte line => simp [write]

theorem contents_handle (logger : AsyncLogger) (batch : Batch) (file : Option Bytes) :
    (logger.handle batch).contents file = logger.contents file ++
      if (logger.batchWrite batch).file = file then batch.text else [] := by
  have opened : (logger.openFile batch.date (logger.ftell batch.date)).fileHandler =
      (logger.batchWrite batch).file := rfl
  rw [handle, foldl_write, opened]
  simp only [contents, List.filter_append, List.flatMap_append]
  congr 1
  rw [List.filter_map, List.flatMap_map]
  by_cases same : (logger.batchWrite batch).file = file
  · rw [if_pos same, List.filter_eq_self.mpr, List.flatMap_id', List.flatten_filter_not_isEmpty]
    · rfl
    · intro _ _
      exact decide_eq_true same
  · rw [if_neg same, List.filter_eq_nil_iff.mpr]
    · rfl
    · intro _ _
      simpa using same

/-! ## Which file it is -/

theorem openFile_fileHandler (logger : AsyncLogger) (date : Bytes) (ftell : Int) :
    (logger.openFile date ftell).fileHandler =
      if logger.maxFileSize < ftell then
        some (logger.logFileName date (if date = logger.date then logger.no else 0))
      else
        logger.currentFile date := by
  simp only [openFile, currentFile, logFileName, decide_eq_true_eq]

theorem openFile_no (logger : AsyncLogger) (date : Bytes) (ftell : Int) :
    (logger.openFile date ftell).no =
      if logger.maxFileSize < ftell then (if date = logger.date then logger.no else 0) + 1
      else if date = logger.date then logger.no else 0 := by
  simp only [openFile, decide_eq_true_eq]

theorem logFileName_handle (logger : AsyncLogger) (batch : Batch) (date : Bytes) (no : Nat) :
    (logger.handle batch).logFileName date no = logger.logFileName date no := by
  rw [handle, foldl_write]
  rfl

theorem logFileName_inj {other : Bytes} {no : Nat} :
    logger.logFileName date no = logger.logFileName other no ↔ date = other := by
  simp only [logFileName, List.append_assoc, List.append_cancel_left_eq,
    List.append_cancel_right_eq]

theorem textOn_handle (files : Files) (batch : Batch) (date : Bytes) :
    (files.handle batch).textOn date =
      files.textOn date ++ if batch.date = date then batch.text else [] := by
  have written : (files.logger.batchWrite batch).toBatch = batch := rfl
  simp only [Files.textOn, Files.handle, List.filter_append, List.flatMap_append]
  congr 1
  by_cases same : batch.date = date
  · rw [if_pos same, List.filter_cons_of_pos (by simpa [written] using same)]
    exact List.append_nil _
  · rw [if_neg same, List.filter_cons_of_neg (by simpa [written] using same)]
    rfl

/-- No file has been left, so everything of a day is in the first file of the day. -/
structure Files.Unrotated (files : Files) : Prop where
  no : files.logger.no = 0
  reopenFlag : files.logger.reopenFlag = false
  opened : files.logger.fileHandler = none ∨
    files.logger.fileHandler = some (files.logger.logFileName files.logger.date 0)
  left : ∀ write ∈ files.writes, write.left = none
  contents : ∀ date,
    files.logger.contents (some (files.logger.logFileName date 0)) = files.textOn date

theorem create_unrotated (fileName filePath : Bytes) (maxFileSize : Int) :
    (Files.create fileName filePath maxFileSize).Unrotated where
  no := rfl
  reopenFlag := rfl
  opened := .inl rfl
  left := by
    intro write member
    cases member
  contents _ := rfl

theorem Files.Unrotated.currentFile {files : Files} (unrotated : files.Unrotated) (date : Bytes) :
    files.logger.currentFile date = some (files.logger.logFileName date 0) := by
  rw [AsyncLogger.currentFile, unrotated.no, unrotated.reopenFlag, ite_self]
  split
  case isTrue => rfl
  case isFalse kept =>
    simp only [Bool.false_or, Bool.or_eq_true, decide_eq_true_eq, not_or,
      not_not, Option.isNone_iff_eq_none] at kept
    rcases unrotated.opened with none | opened
    · exact absurd none kept.2
    · rw [opened, kept.1]

theorem Files.Unrotated.ftell {files : Files} (unrotated : files.Unrotated) (date : Bytes) :
    files.logger.ftell date = (files.textOn date).length := by
  rw [AsyncLogger.ftell, unrotated.currentFile, unrotated.contents]

theorem Files.Unrotated.fileHandler {files : Files} (unrotated : files.Unrotated) (date : Bytes)
    (ftell : Int) :
    (files.logger.openFile date ftell).fileHandler = some (files.logger.logFileName date 0) := by
  rw [openFile_fileHandler, unrotated.no, ite_self, unrotated.currentFile, ite_self]

/-- Whether it is too large or not, the first file of the day is written. -/
theorem Files.Unrotated.file {files : Files} (unrotated : files.Unrotated) (batch : Batch) :
    (files.logger.batchWrite batch).file = some (files.logger.logFileName batch.date 0) :=
  unrotated.fileHandler batch.date _

theorem Files.Unrotated.before {files : Files} (unrotated : files.Unrotated) (batch : Batch) :
    (files.logger.batchWrite batch).before = (files.textOn batch.date).length := by
  rw [← unrotated.contents, ← unrotated.file]
  rfl

theorem Files.Unrotated.left_of_within {files : Files} {batch : Batch}
    (unrotated : files.Unrotated) (within : files.WithinLimit batch) :
    (files.logger.batchWrite batch).left = none := by
  rw [batchWrite, unrotated.ftell]
  exact if_neg (Int.not_lt.mpr within)

theorem Files.Unrotated.left_append {files : Files} {batch : Batch}
    (unrotated : files.Unrotated) (within : files.WithinLimit batch) :
    ∀ write ∈ files.writes ++ [files.logger.batchWrite batch], write.left = none := by
  intro write member
  rcases List.mem_append.mp member with earlier | now
  · exact unrotated.left write earlier
  · rw [List.mem_singleton.mp now, unrotated.left_of_within within]

/-- So a batch finds room exactly within the limit. -/
theorem Files.Unrotated.rotates_iff {files : Files} (unrotated : files.Unrotated)
    (batch : Batch) :
    Rotates files (files.logger.batchWrite batch) ↔ files.WithinLimit batch := by
  constructor
  · intro rotates
    have room := rotates.room
    rw [unrotated.before] at room
    exact room
  · intro within
    refine ⟨?_, ⟨0, unrotated.file batch, ?_⟩, ?_⟩
    · rw [unrotated.before]
      exact within
    · intro earlier impossible
      cases impossible
    · intro other member isSome
      rw [unrotated.left_append within other member] at isSome
      cases isSome

theorem Files.Unrotated.handle {files : Files} {batch : Batch} (unrotated : files.Unrotated)
    (within : files.WithinLimit batch) : (files.handle batch).Unrotated where
  no := by
    have kept : ¬files.logger.maxFileSize < files.logger.ftell batch.date := by
      rw [unrotated.ftell]
      exact Int.not_lt.mpr within
    rw [Files.handle, AsyncLogger.handle, foldl_write, openFile_no, unrotated.no, ite_self]
    exact if_neg kept
  reopenFlag := by
    rw [Files.handle, AsyncLogger.handle, foldl_write]
    rfl
  opened := by
    apply Or.inr
    rw [Files.handle, logFileName_handle, AsyncLogger.handle, foldl_write]
    exact unrotated.fileHandler batch.date _
  left := unrotated.left_append within
  contents := by
    intro date
    rw [textOn_handle, Files.handle, logFileName_handle, contents_handle, unrotated.contents,
      unrotated.file]
    simp only [Option.some.injEq, logFileName_inj]

/-- The files are rotated as they should exactly as long as no day goes beyond the limit. -/
theorem rotates_run_iff (fileName filePath : Bytes) (maxFileSize : Int) (batches : List Batch) :
    rotation.EachStep (fun current batch _ => Rotates current (current.logger.batchWrite batch))
        (.create fileName filePath maxFileSize) batches ↔
      rotation.EachStep (fun current batch _ => current.WithinLimit batch)
        (.create fileName filePath maxFileSize) batches := by
  have preserved : ∀ current batch next, Files.Unrotated current →
      rotation.Step current batch next → current.WithinLimit batch → next.Unrotated := by
    rintro current batch _ unrotated rfl within
    exact unrotated.handle within
  have rotates : ∀ current batch next, Files.Unrotated current →
      rotation.Step current batch next →
      (Rotates current (current.logger.batchWrite batch) ↔ current.WithinLimit batch) := by
    rintro current batch _ unrotated rfl
    exact unrotated.rotates_iff batch
  exact Transition.System.eachStep_iff preserved rotates
    (create_unrotated fileName filePath maxFileSize) batches

/-- A batch of twenty bytes, and a short one on the same day. -/
def twentyBytes : Batch := ⟨ascii "20240101", [List.replicate 20 0x61]⟩

def oneByte : Batch := ⟨ascii "20240101", [[0x62]]⟩

/-- With a limit of ten bytes, the second batch still goes to the file that is full. -/
theorem not_rotates_full :
    ¬rotation.EachStep (fun current batch _ => Rotates current (current.logger.batchWrite batch))
      (.create (ascii "server") (ascii "./") 10) [twentyBytes, oneByte] := by
  intro each
  have run : rotation.Run (.create (ascii "server") (ascii "./") 10) [twentyBytes]
      ((Files.create (ascii "server") (ascii "./") 10).handle twentyBytes) :=
    .cons rfl (.nil _)
  have rotates := each [twentyBytes] _ oneByte _ (List.prefix_refl _) run rfl
  exact absurd rotates.room (by decide +kernel)

/-! ## The thread -/

theorem writing_run (tmp : List Bytes) (logger : AsyncLogger) :
    looping.Run { logger with point := .writing tmp } (tmp.map (fun _ => ([], 0)) ++ [([], 0)])
      { tmp.foldl write logger with point := .flushed } := by
  induction tmp generalizing logger with
  | nil => exact step_run rfl
  | cons line tmp induction => exact .cons rfl (induction (logger.write line))

/-- From test to test, the thread handles the batch at the front of the queue. -/
theorem handle_run (logger : AsyncLogger) (batch : Batch) (buffer : List (List Bytes))
    (unset : logger.stopFlag = false) :
    ∃ readings, looping.Run
      { logger with buffer := batch.tmp :: buffer, point := .testing } readings
      { logger.handle batch with buffer, point := .testing } := by
  let opened := { logger.openFile batch.date (logger.ftell batch.date) with buffer }
  have taken : looping.Run
      { logger with buffer := batch.tmp :: buffer, point := .testing }
      [([], 0), (batch.date, logger.ftell batch.date)]
      { opened with point := .writing batch.tmp } :=
    .cons rfl (.cons rfl (.nil _))
  have written := writing_run batch.tmp opened
  have tested : looping.Run { batch.tmp.foldl write opened with point := .flushed } [([], 0)]
      { batch.tmp.foldl write opened with point := .testing } := by
    apply step_run
    rw [foldl_write]
    simp [loop, opened, openFile, unset]
  have same : { batch.tmp.foldl write opened with point := .testing } =
      { logger.handle batch with buffer, point := .testing } := by
    rw [handle, foldl_write, foldl_write]
  rw [same] at tested
  exact ⟨_, (taken.append written).append tested⟩

/-- So it handles all batches of a queue. -/
theorem rotation_run {files final : Files} {batches : List Batch}
    (run : rotation.Run files batches final) (unset : files.logger.stopFlag = false)
    (buffer : List (List Bytes)) :
    ∃ readings, looping.Run
      { files.logger with buffer := batches.map Batch.tmp ++ buffer, point := .testing } readings
      { final.logger with buffer, point := .testing } := by
  induction run with
  | nil => exact ⟨[], .nil _⟩
  | @cons current middle final batch batches step rest induction =>
      cases step
      have kept : (current.handle batch).logger.stopFlag = false := by
        rw [Files.handle, handle, foldl_write]
        exact unset
      rcases handle_run current.logger batch (batches.map Batch.tmp ++ buffer) unset with
        ⟨first, handled⟩
      rcases induction kept with ⟨later, remaining⟩
      exact ⟨_, handled.append remaining⟩

end NetRpc.AsyncLogger
