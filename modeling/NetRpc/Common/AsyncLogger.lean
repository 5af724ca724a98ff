import NetRpc.Common.NetByte
import NetRpc.Foundation.Transition

/-! # The thread that writes a log

An `AsyncLogger` keeps a queue of batches. Its thread takes one batch after the
other, turns to another file where the date or the size asks for it, and writes
the lines of the batch.
-/

namespace NetRpc

/-- One call of `fwrite`, with the file that was open. -/
structure FileWrite where
  fileHandler : Option Bytes
  text : Bytes
deriving DecidableEq

/-- Where the thread stands in `Loop`. -/
inductive AsyncLogger.LoopPoint
  /-- About to test, under the mutex, whether there is a batch. -/
  | testing
  /-- Waiting on `m_condvariable`. -/
  | waiting
  /-- The batch is taken, and the file has not been looked at. -/
  | taken (tmp : List Bytes)
  /-- The loop over the batch has these lines left. -/
  | writing (rest : List Bytes)
  /-- The file is flushed, and the stop flag is tested next. -/
  | flushed
  | returned
deriving DecidableEq

namespace AsyncLogger.LoopPoint

/-- The lines in the hands of the thread. -/
def held : LoopPoint → List Bytes
  | .taken tmp => tmp
  | .writing rest => rest
  | .testing | .waiting | .flushed | .returned => []

/-- The number of batches with which the thread will still come to the test of
the stop flag, those in the queue not counted. -/
def turns : LoopPoint → Nat
  | .taken _ | .writing _ | .flushed => 1
  | .testing | .waiting | .returned => 0

end AsyncLogger.LoopPoint

structure AsyncLogger where
  buffer : List (List Bytes) := []
  fileName : Bytes
  filePath : Bytes
  maxFileSize : Int
  date : Bytes := []
  /-- The name of the open file. -/
  fileHandler : Option Bytes := none
  reopenFlag : Bool := false
  no : Nat := 0
  stopFlag : Bool := false
  point : AsyncLogger.LoopPoint := .testing
  fwrites : List FileWrite := []
  /-- The lines that the loop over a batch has come to. -/
  written : List Bytes := []
deriving DecidableEq

namespace AsyncLogger

/-- Turns to the file of the day. A file that has grown too large is closed and
its number counted up, but the name to open was made before. -/
def openFile (logger : AsyncLogger) (date : Bytes) (ftell : Int) : AsyncLogger :=
  let no := if date = logger.date then logger.no else 0
  let reopenFlag := logger.reopenFlag || date ≠ logger.date || logger.fileHandler.isNone
  let logFileName := logger.filePath ++ logger.fileName ++ ascii "_" ++ date ++
    ascii "_log." ++ ascii (toString no)
  let fileHandler := if reopenFlag then some logFileName else logger.fileHandler
  let full := decide (logger.maxFileSize < ftell)
  { logger with
    date
    no := if full then no + 1 else no
    fileHandler := if full then some logFileName else fileHandler
    reopenFlag := false }

/-- The body of the loop over a batch. -/
def write (logger : AsyncLogger) (line : Bytes) : AsyncLogger :=
  { logger with
    fwrites :=
      if line.isEmpty then logger.fwrites else logger.fwrites ++ [⟨logger.fileHandler, line⟩]
    written := logger.written ++ [line] }

/-- `Loop` from one point to the next. A thread that waits is woken by others. -/
def loop (logger : AsyncLogger) (date : Bytes) (ftell : Int) : Option AsyncLogger :=
  match logger.point with
  | .testing =>
      match logger.buffer with
      | [] => some { logger with point := .waiting }
      | tmp :: buffer => some { logger with buffer, point := .taken tmp }
  | .taken tmp => some { logger.openFile date ftell with point := .writing tmp }
  | .writing (line :: rest) => some { logger.write line with point := .writing rest }
  | .writing [] => some { logger with point := .flushed }
  | .flushed =>
      if logger.stopFlag then
        some { logger with point := .returned }
      else
        some { logger with point := .testing }
  | .waiting | .returned => none

/-- `notify_one`, or a spurious wakeup. -/
def wake (logger : AsyncLogger) : AsyncLogger :=
  { logger with point := if logger.point = .waiting then .testing else logger.point }

def pushLogBuffer (logger : AsyncLogger) (vec : List Bytes) : AsyncLogger :=
  { logger with buffer := logger.buffer ++ [vec] }.wake

def stop (logger : AsyncLogger) : AsyncLogger :=
  { logger with stopFlag := true }

/-- Runs of the thread alone. -/
def looping : Transition.System AsyncLogger (Bytes × Int) where
  Initial logger := logger.point = .testing
  Step logger reading next := logger.loop reading.1 reading.2 = some next

/-- The lines written, those in the hands of the thread and those in the queue. -/
def lines (logger : AsyncLogger) : List Bytes :=
  logger.written ++ logger.point.held ++ logger.buffer.flatten

/-- How often the thread will come to the test of the stop flag if it is given
no more batches and the flag stays unset. -/
def turns (logger : AsyncLogger) : Nat :=
  logger.point.turns + logger.buffer.length

/-- The texts given to `fwrite` are the lines that are not empty. No batch is
empty, the thread does not wait for a batch that is there, and it has not
returned before it is told to stop. -/
structure Sound (logger : AsyncLogger) : Prop where
  fwrites : logger.fwrites.map FileWrite.text = logger.written.filter fun line => !line.isEmpty
  batches : [] ∉ logger.buffer
  waiting : logger.point = .waiting → logger.buffer = []
  returned : logger.point = .returned → logger.stopFlag = true

variable {logger next : AsyncLogger} {date : Bytes} {ftell : Int} {vec : List Bytes}

/-! ## Waking, pushing and stopping -/

@[simp] theorem wake_held (logger : AsyncLogger) :
    logger.wake.point.held = logger.point.held := by
  unfold wake
  split
  · next waiting => rw [waiting]; rfl
  · rfl

@[simp] theorem wake_turns (logger : AsyncLogger) : logger.wake.turns = logger.turns := by
  have point : logger.wake.point.turns = logger.point.turns := by
    unfold wake
    split
    · next waiting => rw [waiting]; rfl
    · rfl
  rw [turns, point]
  rfl

theorem wake_returned (logger : AsyncLogger) :
    logger.wake.point = .returned ↔ logger.point = .returned := by
  unfold wake
  split
  · next waiting => simp [waiting]
  · rfl

theorem wake_not_waiting (logger : AsyncLogger) : logger.wake.point ≠ .waiting := by
  intro still
  unfold wake at still
  split at still
  · cases still
  · contradiction

theorem wake_lines (logger : AsyncLogger) : logger.wake.lines = logger.lines := by
  rw [lines, wake_held]
  rfl

theorem pushLogBuffer_lines (logger : AsyncLogger) (vec : List Bytes) :
    (logger.pushLogBuffer vec).lines = logger.lines ++ vec := by
  rw [pushLogBuffer, wake_lines]
  simp [lines]

theorem pushLogBuffer_turns (logger : AsyncLogger) (vec : List Bytes) :
    (logger.pushLogBuffer vec).turns = logger.turns + 1 := by
  rw [pushLogBuffer, wake_turns]
  simp [turns, Nat.add_assoc]

theorem wake_sound (sound : logger.Sound) : logger.wake.Sound where
  fwrites := sound.fwrites
  batches := sound.batches
  waiting still := absurd still (wake_not_waiting logger)
  returned done := sound.returned ((wake_returned logger).mp done)

theorem pushLogBuffer_sound (sound : logger.Sound) (nonempty : vec ≠ []) :
    (logger.pushLogBuffer vec).Sound where
  fwrites := sound.fwrites
  batches := by
    simp only [pushLogBuffer, wake, List.mem_append, List.mem_singleton, not_or]
    exact ⟨sound.batches, nonempty.symm⟩
  waiting still := absurd still (wake_not_waiting _)
  returned done := sound.returned ((wake_returned _).mp done)

theorem stop_sound (sound : logger.Sound) : logger.stop.Sound where
  fwrites := sound.fwrites
  batches := sound.batches
  waiting := sound.waiting
  returned _ := rfl

/-! ## The loop -/

/-- What a step of the loop can do. -/
inductive Moves (logger : AsyncLogger) (date : Bytes) (ftell : Int) : AsyncLogger → Prop
  | wait (testing : logger.point = .testing) (empty : logger.buffer = []) :
      Moves logger date ftell { logger with point := .waiting }
  | take (tmp : List Bytes) (buffer : List (List Bytes)) (testing : logger.point = .testing)
      (front : logger.buffer = tmp :: buffer) :
      Moves logger date ftell { logger with buffer, point := .taken tmp }
  | openFile (tmp : List Bytes) (taken : logger.point = .taken tmp) :
      Moves logger date ftell { logger.openFile date ftell with point := .writing tmp }
  | write (line : Bytes) (rest : List Bytes) (writing : logger.point = .writing (line :: rest)) :
      Moves logger date ftell { logger.write line with point := .writing rest }
  | flush (writing : logger.point = .writing []) :
      Moves logger date ftell { logger with point := .flushed }
  | again (flushed : logger.point = .flushed) (unset : logger.stopFlag = false) :
      Moves logger date ftell { logger with point := .testing }
  | finish (flushed : logger.point = .flushed) (set : logger.stopFlag = true) :
      Moves logger date ftell { logger with point := .returned }

theorem loop_cases (looped : logger.loop date ftell = some next) :
    logger.Moves date ftell next := by
  unfold loop at looped
  split at looped
  · next testing =>
      split at looped
      · next empty =>
          cases looped
          exact .wait testing empty
      · next tmp buffer front =>
          cases looped
          exact .take tmp buffer testing front
  · next tmp taken =>
      cases looped
      exact .openFile tmp taken
  · next line rest writing =>
      cases looped
      exact .write line rest writing
  · next writing =>
      cases looped
      exact .flush writing
  · next flushed =>
      split at looped
      · next set =>
          cases looped
          exact .finish flushed set
      · next unset =>
          cases looped
          exact .again flushed ((Bool.not_eq_true _).mp unset)
  · cases looped
  · cases looped

/-- The loop only moves lines from the queue through the batch to the file. -/
theorem loop_lines (looped : logger.loop date ftell = some next) :
    next.lines = logger.lines := by
  cases loop_cases looped with
  | wait testing => simp [lines, LoopPoint.held, testing]
  | take tmp buffer testing front => simp [lines, LoopPoint.held, testing, front]
  | openFile tmp taken => simp [lines, LoopPoint.held, AsyncLogger.openFile, taken]
  | write line rest writing => simp [lines, LoopPoint.held, AsyncLogger.write, writing]
  | flush writing => simp [lines, LoopPoint.held, writing]
  | again flushed => simp [lines, LoopPoint.held, flushed]
  | finish flushed => simp [lines, LoopPoint.held, flushed]

theorem loop_stopFlag (looped : logger.loop date ftell = some next) :
    next.stopFlag = logger.stopFlag := by
  cases loop_cases looped <;> rfl

theorem write_fwrites (agree : logger.fwrites.map FileWrite.text =
      logger.written.filter fun line => !line.isEmpty) (line : Bytes) :
    (logger.write line).fwrites.map FileWrite.text =
      (logger.write line).written.filter fun line => !line.isEmpty := by
  cases line with
  | nil => simp [write, agree]
  | cons byte line => simp [write, agree]

theorem loop_sound (sound : logger.Sound) (looped : logger.loop date ftell = some next) :
    next.Sound := by
  cases loop_cases looped with
  | wait testing empty =>
      exact { sound with waiting := fun _ => empty, returned := fun done => by cases done }
  | take tmp buffer testing front =>
      refine { sound with
        batches := fun member => sound.batches ?_
        waiting := fun still => by cases still
        returned := fun done => by cases done }
      rw [front]
      exact List.mem_cons_of_mem tmp member
  | write line rest writing =>
      exact { sound with
        fwrites := write_fwrites sound.fwrites line
        waiting := fun still => by cases still
        returned := fun done => by cases done }
  | finish flushed set =>
      exact { sound with
        waiting := fun still => by cases still
        returned := fun _ => set }
  | openFile | flush | again =>
      exact { sound with
        waiting := fun still => by cases still
        returned := fun done => by cases done }

/-- A step keeps the number of turns, except the one that tests the stop flag. -/
theorem loop_turns (looped : logger.loop date ftell = some next) :
    next.turns = logger.turns ∧ next.point ≠ .returned ∧ logger.point ≠ .returned ∨
      logger.point = .flushed ∧ logger.turns = next.turns + 1 ∧
        (next.point = .returned ↔ logger.stopFlag = true) := by
  cases loop_cases looped with
  | wait testing => simp [turns, LoopPoint.turns, testing]
  | take tmp buffer testing front =>
      simp [turns, LoopPoint.turns, testing, front, Nat.add_comm]
  | openFile tmp taken => simp [turns, LoopPoint.turns, AsyncLogger.openFile, taken]
  | write line rest writing => simp [turns, LoopPoint.turns, AsyncLogger.write, writing]
  | flush writing => simp [turns, LoopPoint.turns, writing]
  | again flushed unset => simp [turns, LoopPoint.turns, flushed, unset, Nat.add_comm]
  | finish flushed set => simp [turns, LoopPoint.turns, flushed, set, Nat.add_comm]

/-! ## A thread that has been told to stop -/

theorem step_run (looped : logger.loop date ftell = some next) :
    looping.Run logger [(date, ftell)] next :=
  .cons looped (.nil _)

theorem flushed_returns (set : logger.stopFlag = true) (flushed : logger.point = .flushed) :
    looping.Run logger [([], 0)] { logger with point := .returned } := by
  have looped : logger.loop [] 0 = some { logger with point := .returned } := by
    simp only [loop, flushed, set, if_true]
  exact step_run looped

theorem writing_returns (set : logger.stopFlag = true) (rest : List Bytes)
    (writing : logger.point = .writing rest) :
    ∃ readings final, looping.Run logger readings final ∧
      final.point = .returned ∧ final.buffer = logger.buffer := by
  induction rest generalizing logger with
  | nil =>
      have looped : logger.loop [] 0 = some { logger with point := .flushed } := by
        simp only [loop, writing]
      have last := @flushed_returns { logger with point := .flushed } set rfl
      exact ⟨_, _, (step_run looped).append last, rfl, rfl⟩
  | cons line rest induction =>
      have looped : logger.loop [] 0 = some { logger.write line with point := .writing rest } := by
        simp only [loop, writing]
      rcases @induction { logger.write line with point := .writing rest } set rfl with
        ⟨readings, final, run, returned, buffer⟩
      exact ⟨_, final, (step_run looped).append run, returned, buffer⟩

theorem taken_returns (set : logger.stopFlag = true) {tmp : List Bytes}
    (taken : logger.point = .taken tmp) :
    ∃ readings final, looping.Run logger readings final ∧
      final.point = .returned ∧ final.buffer = logger.buffer := by
  have looped : logger.loop [] 0 = some { logger.openFile [] 0 with point := .writing tmp } := by
    simp only [loop, taken]
  rcases @writing_returns { logger.openFile [] 0 with point := .writing tmp } set tmp rfl with
    ⟨readings, final, run, returned, buffer⟩
  exact ⟨_, final, (step_run looped).append run, returned, buffer⟩

/-- It returns after one more turn, however many batches there are. -/
theorem turn_returns (sound : logger.Sound) (set : logger.stopFlag = true)
    (busy : 0 < logger.turns) (running : logger.point ≠ .returned) :
    ∃ readings final, looping.Run logger readings final ∧
      final.point = .returned ∧ final.turns + 1 = logger.turns := by
  cases point : logger.point with
  | testing =>
      cases queue : logger.buffer with
      | nil => simp [turns, LoopPoint.turns, point, queue] at busy
      | cons tmp buffer =>
          have looped : logger.loop [] 0 = some { logger with buffer, point := .taken tmp } := by
            simp only [loop, point, queue]
          rcases @taken_returns { logger with buffer, point := .taken tmp } set tmp rfl with
            ⟨readings, final, run, returned, rest⟩
          refine ⟨_, final, (step_run looped).append run, returned, ?_⟩
          simp [turns, LoopPoint.turns, point, queue, returned, rest]
  | waiting => simp [turns, LoopPoint.turns, point, sound.waiting point] at busy
  | taken tmp =>
      rcases taken_returns set point with ⟨readings, final, run, returned, buffer⟩
      refine ⟨readings, final, run, returned, ?_⟩
      simp [turns, LoopPoint.turns, point, returned, buffer, Nat.add_comm]
  | writing rest =>
      rcases writing_returns set rest point with ⟨readings, final, run, returned, buffer⟩
      refine ⟨readings, final, run, returned, ?_⟩
      simp [turns, LoopPoint.turns, point, returned, buffer, Nat.add_comm]
  | flushed =>
      refine ⟨_, _, flushed_returns set point, rfl, ?_⟩
      simp [turns, LoopPoint.turns, point, Nat.add_comm]
  | returned => contradiction

end AsyncLogger

end NetRpc
