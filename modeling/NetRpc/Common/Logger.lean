import Mathlib.Logic.Function.Basic
import NetRpc.Common.AsyncLogger
import NetRpc.Foundation.Transition

/-! # The logger and its threads

Lines are appended to the buffer of one of two logs. `syncLoop` takes a buffer
in one step and hands it to the thread of that log in another. `flush` does the
same once more and then tells both threads to stop.
-/

namespace NetRpc

/-- `m_buffer` goes to `m_asnyc_logger`, and `m_app_buffer` to `m_asnyc_app_logger`. -/
inductive LogTarget
  | rpc
  | app
deriving DecidableEq

/-- Where a thread stands in `syncLoop`. -/
inductive SyncPoint
  /-- About to swap the buffer under its mutex. -/
  | swapping (target : LogTarget)
  /-- About to push what it has taken. -/
  | pushing (target : LogTarget) (tmp : List Bytes)
deriving DecidableEq

/-- The lines that a thread in `syncLoop` has taken from the buffer of a log. -/
def SyncPoint.held (target : LogTarget) : Option SyncPoint → List Bytes
  | some (.pushing other tmp) => if other = target then tmp else []
  | some (.swapping _) | none => []

@[simp] theorem SyncPoint.held_none (target : LogTarget) : SyncPoint.held target none = [] := rfl

/-- Where a thread stands in `Logger::flush`. -/
inductive FlushPoint
  | notCalled
  | syncing (point : SyncPoint)
  /-- About to stop the thread of this log. -/
  | stopping (target : LogTarget)
  | done
deriving DecidableEq

namespace FlushPoint

def sync : FlushPoint → Option SyncPoint
  | .syncing point => some point
  | .notCalled | .stopping _ | .done => none

/-- Where `flush` stands when its call of `syncLoop` has gone on. -/
def afterSync : Option SyncPoint → FlushPoint
  | some point => .syncing point
  | none => .stopping .rpc

def afterStop : LogTarget → FlushPoint
  | .rpc => .stopping .app
  | .app => .done

/-- The buffer of the log has been taken. -/
def swapped (target : LogTarget) : FlushPoint → Bool
  | .notCalled | .syncing (.swapping .rpc) => false
  | .syncing (.pushing .rpc _) | .syncing (.swapping .app) => target = .rpc
  | .syncing (.pushing .app _) | .stopping _ | .done => true

/-- The thread of the log has been told to stop. -/
def stopped (target : LogTarget) : FlushPoint → Bool
  | .notCalled | .syncing _ | .stopping .rpc => false
  | .stopping .app => target = .rpc
  | .done => true

end FlushPoint

structure Logger where
  type : Int
  buffer : LogTarget → List Bytes
  asyncLogger : LogTarget → AsyncLogger
  /-- Where the call that the timer makes of `syncLoop` stands. -/
  timer : Option SyncPoint
  flush : FlushPoint
  printed : List Bytes
  /-- All lines that have been appended to a buffer. -/
  pushed : LogTarget → List Bytes

inductive LogStep
  | pushLog (msg : Bytes)
  | pushAppLog (msg : Bytes)
  /-- The timer calls `syncLoop`, or the call goes on. -/
  | syncLoop
  /-- The thread of a log goes on. It reads the date and the position in the file. -/
  | loop (target : LogTarget) (date : Bytes) (ftell : Int)
  /-- A spurious wakeup. -/
  | wake (target : LogTarget)
  /-- `flush` is called, or the call goes on. -/
  | flush
deriving DecidableEq

namespace Logger

/-- After `Init` with type 1. -/
def initial (fileName filePath : Bytes) (maxFileSize : Int) : Logger where
  type := 1
  buffer _ := []
  asyncLogger
    | .rpc => { fileName := fileName ++ ascii "_rpc", filePath, maxFileSize }
    | .app => { fileName := fileName ++ ascii "_app", filePath, maxFileSize }
  timer := none
  flush := .notCalled
  printed := []
  pushed _ := []

def setAsyncLogger (state : Logger) (target : LogTarget) (logger : AsyncLogger) : Logger :=
  { state with asyncLogger := Function.update state.asyncLogger target logger }

/-- `push_back` on the buffer of a log. -/
def append (state : Logger) (target : LogTarget) (msg : Bytes) : Logger :=
  { state with
    buffer := Function.update state.buffer target (state.buffer target ++ [msg])
    pushed := Function.update state.pushed target (state.pushed target ++ [msg]) }

def pushLog (state : Logger) (msg : Bytes) : Logger :=
  if state.type = 0 then
    { state with printed := state.printed ++ [msg ++ ascii "\n"] }
  else
    state.append .rpc msg

def pushAppLog (state : Logger) (msg : Bytes) : Logger :=
  state.append .app msg

/-- `syncLoop` from one point to the next, which is `none` when it returns. -/
def syncStep (state : Logger) : SyncPoint → Logger × Option SyncPoint
  | .swapping target =>
      ({ state with buffer := Function.update state.buffer target [] },
        some (.pushing target (state.buffer target)))
  | .pushing target tmp =>
      (if tmp.isEmpty then
          state
        else
          state.setAsyncLogger target ((state.asyncLogger target).pushLogBuffer tmp),
        match target with
        | .rpc => some (.swapping .app)
        | .app => none)

def syncLoop (state : Logger) : Logger :=
  match state.timer with
  | none => { state with timer := some (.swapping .rpc) }
  | some point => { (state.syncStep point).1 with timer := (state.syncStep point).2 }

/-- `stop` and the `fflush` after it, which finds nothing that is not flushed
or about to be. -/
def stop (state : Logger) (target : LogTarget) : Logger :=
  state.setAsyncLogger target (state.asyncLogger target).stop

def flushStep (state : Logger) : Option Logger :=
  match state.flush with
  | .notCalled => some { state with flush := .syncing (.swapping .rpc) }
  | .syncing point =>
      some { (state.syncStep point).1 with flush := .afterSync (state.syncStep point).2 }
  | .stopping target => some { state.stop target with flush := .afterStop target }
  | .done => none

def step (state : Logger) : LogStep → Option Logger
  | .pushLog msg => some (state.pushLog msg)
  | .pushAppLog msg => some (state.pushAppLog msg)
  | .syncLoop => some state.syncLoop
  | .loop target date ftell =>
      ((state.asyncLogger target).loop date ftell).map (state.setAsyncLogger target)
  | .wake target => some (state.setAsyncLogger target (state.asyncLogger target).wake)
  | .flush => state.flushStep

end Logger

/-- Runs of the logger with all its threads. -/
def logging : Transition.System Logger LogStep where
  Initial state := ∃ fileName filePath maxFileSize, state = .initial fileName filePath maxFileSize
  Step state event next := state.step event = some next

/-- The lines that steps push to a log. -/
def LogStep.line (target : LogTarget) : LogStep → List Bytes
  | .pushLog msg => if .rpc = target then [msg] else []
  | .pushAppLog msg => if .app = target then [msg] else []
  | .syncLoop | .loop .. | .wake _ | .flush => []

def pushedLines (target : LogTarget) (events : List LogStep) : List Bytes :=
  events.flatMap (LogStep.line target)

namespace Logger

variable {state next : Logger} {event : LogStep} {target other : LogTarget}

/-! ## One log at a time -/

@[simp] theorem setAsyncLogger_self (state : Logger) (target : LogTarget)
    (logger : AsyncLogger) :
    (state.setAsyncLogger target logger).asyncLogger target = logger :=
  Function.update_self ..

@[simp] theorem setAsyncLogger_other (different : target ≠ other) (state : Logger)
    (logger : AsyncLogger) :
    (state.setAsyncLogger other logger).asyncLogger target = state.asyncLogger target :=
  Function.update_of_ne different ..

@[simp] theorem setAsyncLogger_eq_self (state : Logger) (target : LogTarget) :
    state.setAsyncLogger target (state.asyncLogger target) = state := by
  rw [setAsyncLogger, Function.update_eq_self]

@[simp] theorem setAsyncLogger_idem (state : Logger) (target : LogTarget)
    (first second : AsyncLogger) :
    (state.setAsyncLogger target first).setAsyncLogger target second =
      state.setAsyncLogger target second := by
  simp only [setAsyncLogger, Function.update_idem]

theorem setAsyncLogger_same {logger : AsyncLogger} (view : AsyncLogger → α)
    (same : view logger = view (state.asyncLogger other)) (target : LogTarget) :
    view ((state.setAsyncLogger other logger).asyncLogger target) =
      view (state.asyncLogger target) := by
  by_cases equal : target = other
  · subst equal
    rw [setAsyncLogger_self, same]
  · rw [setAsyncLogger_other equal]

/-- The lines of a log that are written or on their way, with those that a
thread at this point of `syncLoop` holds. -/
def lines (state : Logger) (target : LogTarget) (point : Option SyncPoint) : List Bytes :=
  (state.asyncLogger target).lines ++ SyncPoint.held target point ++ state.buffer target

theorem setAsyncLogger_lines {logger : AsyncLogger}
    (same : logger.lines = (state.asyncLogger other).lines) (target : LogTarget)
    (point : Option SyncPoint) :
    (state.setAsyncLogger other logger).lines target point = state.lines target point := by
  rw [lines, lines, setAsyncLogger_same AsyncLogger.lines same]
  rfl

theorem append_lines (state : Logger) (msg : Bytes) (other target : LogTarget)
    (point : Option SyncPoint) :
    (state.append other msg).lines target point =
      state.lines target point ++ if other = target then [msg] else [] := by
  by_cases equal : other = target
  · subst equal
    simp [lines, append]
  · simp [lines, append, equal, Function.update_of_ne (Ne.symm equal)]

theorem append_pushed (state : Logger) (msg : Bytes) (other target : LogTarget) :
    (state.append other msg).pushed target =
      state.pushed target ++ if other = target then [msg] else [] := by
  by_cases equal : other = target
  · subst equal
    simp [append]
  · simp [append, equal, Function.update_of_ne (Ne.symm equal)]

/-- `syncLoop` moves lines from the buffer through its own vector to the queue. -/
theorem syncStep_lines (state : Logger) (point : SyncPoint) (target : LogTarget) :
    (state.syncStep point).1.lines target (state.syncStep point).2 =
      state.lines target (some point) := by
  cases point with
  | swapping other =>
      by_cases equal : other = target
      · subst equal
        simp [syncStep, lines, SyncPoint.held]
      · simp [syncStep, lines, SyncPoint.held, equal, Function.update_of_ne (Ne.symm equal)]
  | pushing other tmp =>
      have returned : SyncPoint.held target (state.syncStep (.pushing other tmp)).2 = [] := by
        cases other <;> rfl
      rw [lines, returned, List.append_nil, lines]
      by_cases empty : tmp = []
      · subst empty
        simp [syncStep, SyncPoint.held]
      · by_cases equal : other = target
        · subst equal
          simp [syncStep, SyncPoint.held, empty, AsyncLogger.pushLogBuffer_lines]
          rfl
        · simp [syncStep, SyncPoint.held, empty, equal,
            setAsyncLogger_other (Ne.symm equal)]
          rfl

/-! ## What one step does -/

theorem syncStep_frame (state : Logger) (point : SyncPoint) :
    (state.syncStep point).1.type = state.type ∧
      (state.syncStep point).1.timer = state.timer ∧
      (state.syncStep point).1.flush = state.flush ∧
      (state.syncStep point).1.pushed = state.pushed := by
  cases point with
  | swapping other => exact ⟨rfl, rfl, rfl, rfl⟩
  | pushing other tmp =>
      simp only [syncStep]
      split <;> exact ⟨rfl, rfl, rfl, rfl⟩

/-- A step that is not one of `flush` adds the line it pushes, at the end. -/
theorem step_lines (server : state.type ≠ 0) (step : state.step event = some next)
    (unflushed : event ≠ .flush) (target : LogTarget) :
    next.lines target next.timer = state.lines target state.timer ++ event.line target := by
  cases event with
  | pushLog msg =>
      cases step
      rw [pushLog, if_neg server]
      exact append_lines state msg .rpc target state.timer
  | pushAppLog msg =>
      cases step
      exact append_lines state msg .app target state.timer
  | syncLoop =>
      cases step
      rw [LogStep.line, List.append_nil, syncLoop]
      cases stands : state.timer with
      | none => rfl
      | some point => exact syncStep_lines state point target
  | loop other date ftell =>
      rcases Option.map_eq_some_iff.mp step with ⟨logger, looped, rfl⟩
      rw [LogStep.line, List.append_nil]
      exact setAsyncLogger_lines (AsyncLogger.loop_lines looped) target state.timer
  | wake other =>
      cases step
      rw [LogStep.line, List.append_nil]
      exact setAsyncLogger_lines (AsyncLogger.wake_lines _) target state.timer
  | flush => contradiction

/-- What a step of `flush` can do. -/
inductive FlushMoves (state : Logger) : Logger → Prop
  | call (notCalled : state.flush = .notCalled) :
      FlushMoves state { state with flush := .syncing (.swapping .rpc) }
  | sync (point : SyncPoint) (syncing : state.flush = .syncing point) :
      FlushMoves state
        { (state.syncStep point).1 with flush := .afterSync (state.syncStep point).2 }
  | stop (target : LogTarget) (stopping : state.flush = .stopping target) :
      FlushMoves state { state.stop target with flush := .afterStop target }

theorem flushStep_cases (flushed : state.flushStep = some next) : FlushMoves state next := by
  unfold flushStep at flushed
  split at flushed
  · next notCalled =>
      cases flushed
      exact .call notCalled
  · next point syncing =>
      cases flushed
      exact .sync point syncing
  · next target stopping =>
      cases flushed
      exact .stop target stopping
  · cases flushed

/-- `flush` moves lines as `syncLoop` does, with a vector of its own. -/
theorem flushStep_lines (flushed : state.flushStep = some next) (target : LogTarget) :
    next.lines target next.flush.sync = state.lines target state.flush.sync := by
  cases flushStep_cases flushed with
  | call notCalled =>
      rw [notCalled]
      rfl
  | sync point syncing =>
      have after : (FlushPoint.afterSync (state.syncStep point).2).sync =
          (state.syncStep point).2 := by
        cases (state.syncStep point).2 <;> rfl
      rw [syncing, after]
      exact syncStep_lines state point target
  | stop other stopping =>
      rw [stopping]
      cases other <;> exact setAsyncLogger_lines (by rfl) target none

theorem flushStep_frame (flushed : state.flushStep = some next) :
    next.type = state.type ∧ next.timer = state.timer ∧ next.pushed = state.pushed := by
  cases flushStep_cases flushed with
  | sync point syncing =>
      rcases syncStep_frame state point with ⟨type, timer, _, pushed⟩
      exact ⟨type, timer, pushed⟩
  | call | stop => exact ⟨rfl, rfl, rfl⟩

theorem step_frame (server : state.type ≠ 0) (step : state.step event = some next)
    (unflushed : event ≠ .flush) :
    next.type = state.type ∧ next.flush = state.flush ∧
      ∀ target, next.pushed target = state.pushed target ++ event.line target := by
  cases event with
  | pushLog msg =>
      cases step
      rw [pushLog, if_neg server]
      exact ⟨rfl, rfl, append_pushed state msg .rpc⟩
  | pushAppLog msg =>
      cases step
      exact ⟨rfl, rfl, append_pushed state msg .app⟩
  | syncLoop =>
      cases step
      unfold syncLoop
      split
      · exact ⟨rfl, rfl, fun target => (List.append_nil _).symm⟩
      · next point _ =>
          rcases syncStep_frame state point with ⟨type, _, flush, pushed⟩
          refine ⟨type, flush, fun target => ?_⟩
          rw [LogStep.line, List.append_nil]
          exact congrFun pushed target
  | loop target date ftell =>
      rcases Option.map_eq_some_iff.mp step with ⟨logger, looped, rfl⟩
      exact ⟨rfl, rfl, fun target => (List.append_nil _).symm⟩
  | wake target =>
      cases step
      exact ⟨rfl, rfl, fun target => (List.append_nil _).symm⟩
  | flush => contradiction

/-! ## The threads stay sound -/

theorem setAsyncLogger_sound {logger : AsyncLogger}
    (sound : ∀ target, (state.asyncLogger target).Sound) (set : logger.Sound)
    (other target : LogTarget) :
    ((state.setAsyncLogger other logger).asyncLogger target).Sound := by
  by_cases equal : target = other
  · subst equal
    rw [setAsyncLogger_self]
    exact set
  · rw [setAsyncLogger_other equal]
    exact sound target

theorem syncStep_sound (sound : ∀ target, (state.asyncLogger target).Sound)
    (point : SyncPoint) (target : LogTarget) :
    ((state.syncStep point).1.asyncLogger target).Sound := by
  cases point with
  | swapping other => exact sound target
  | pushing other tmp =>
      simp only [syncStep]
      split
      · exact sound target
      · next nonempty =>
          have batch : tmp ≠ [] := fun empty => nonempty (List.isEmpty_iff.mpr empty)
          exact setAsyncLogger_sound sound
            (AsyncLogger.pushLogBuffer_sound (sound other) batch) other target

theorem flushStep_sound (sound : ∀ target, (state.asyncLogger target).Sound)
    (flushed : state.flushStep = some next) (target : LogTarget) :
    (next.asyncLogger target).Sound := by
  cases flushStep_cases flushed with
  | call notCalled => exact sound target
  | sync point syncing => exact syncStep_sound sound point target
  | stop other stopping =>
      exact setAsyncLogger_sound sound (AsyncLogger.stop_sound (sound other)) other target

theorem step_sound (sound : ∀ target, (state.asyncLogger target).Sound)
    (step : state.step event = some next) (target : LogTarget) :
    (next.asyncLogger target).Sound := by
  cases event with
  | pushLog msg =>
      cases step
      unfold pushLog
      split <;> exact sound target
  | pushAppLog msg =>
      cases step
      exact sound target
  | syncLoop =>
      cases step
      unfold syncLoop
      split
      · exact sound target
      · exact syncStep_sound sound _ target
  | loop other date ftell =>
      rcases Option.map_eq_some_iff.mp step with ⟨logger, looped, rfl⟩
      exact setAsyncLogger_sound sound (AsyncLogger.loop_sound (sound other) looped) other target
  | wake other =>
      cases step
      exact setAsyncLogger_sound sound (AsyncLogger.wake_sound (sound other)) other target
  | flush => exact flushStep_sound sound step target

theorem initial_sound (fileName filePath : Bytes) (maxFileSize : Int) (target : LogTarget) :
    ((initial fileName filePath maxFileSize).asyncLogger target).Sound := by
  cases target
  all_goals
    exact {
      fwrites := rfl
      batches := List.not_mem_nil
      waiting := fun still => by cases still
      returned := fun done => by cases done }

/-! ## Conservation -/

theorem initial_lines (fileName filePath : Bytes) (maxFileSize : Int) (target : LogTarget) :
    (initial fileName filePath maxFileSize).lines target none = [] := by
  cases target <;> rfl

theorem run_lines {fileName filePath : Bytes} {maxFileSize : Int} {events : List LogStep}
    {final : Logger} (run : logging.Run (.initial fileName filePath maxFileSize) events final)
    (running : .flush ∉ events) :
    final.type = 1 ∧ ∀ target, final.lines target final.timer = pushedLines target events := by
  refine run.history
    (fun events final => .flush ∉ events → final.type = 1 ∧
      ∀ target, final.lines target final.timer = pushedLines target events) ?_ ?_ running
  · intro history current event next holds step running
    rw [List.mem_append, List.mem_singleton, not_or] at running
    rcases holds running.1 with ⟨type, lines⟩
    have server : current.type ≠ 0 := by
      rw [type]
      decide
    have unflushed := Ne.symm running.2
    refine ⟨(step_frame server step unflushed).1.trans type, fun target => ?_⟩
    rw [step_lines server step unflushed, lines, pushedLines, pushedLines, List.flatMap_append,
      List.flatMap_singleton]
  · intro _
    exact ⟨rfl, initial_lines fileName filePath maxFileSize⟩

theorem run_sound {fileName filePath : Bytes} {maxFileSize : Int} {events : List LogStep}
    {final : Logger} (run : logging.Run (.initial fileName filePath maxFileSize) events final) :
    ∀ target, (final.asyncLogger target).Sound :=
  run.preserves (fun state => ∀ target, (state.asyncLogger target).Sound)
    (fun _ _ _ sound step => step_sound sound step)
    (initial_sound fileName filePath maxFileSize)

/-- Until `flush` is called, the lines written, the batch in the hands of the
thread, the queue, the vector of `syncLoop` and the buffer are the lines pushed,
in their order. The calls of `fwrite` have been given the lines written, without
those that are empty. -/
theorem lines_conserved {fileName filePath : Bytes} {maxFileSize : Int}
    {events : List LogStep} {final : Logger}
    (run : logging.Run (.initial fileName filePath maxFileSize) events final)
    (running : .flush ∉ events) (target : LogTarget) :
    (final.asyncLogger target).written ++ (final.asyncLogger target).point.held ++
        (final.asyncLogger target).buffer.flatten ++ SyncPoint.held target final.timer ++
        final.buffer target = pushedLines target events ∧
      (final.asyncLogger target).fwrites.map FileWrite.text =
        (final.asyncLogger target).written.filter fun line => !line.isEmpty :=
  ⟨(run_lines run running).2 target, (run_sound run target).fwrites⟩

theorem run_of_steps {start : Logger} {events : List LogStep} {observe : Logger → α}
    {observed : α} (computed : (events.foldlM step start).map observe = some observed) :
    ∃ final, logging.Run start events final ∧ observe final = observed :=
  Transition.System.Run.of_observed (fun _ _ _ step => step) computed

/-- The first batch is being written, to a file that has been reopened. The
third line is in the queue, the fourth in the hands of `syncLoop`, and the last
in the buffer. -/
def onTheWay : List LogStep :=
  [.loop .rpc [] 0, .pushLog [1], .pushAppLog [9], .pushLog [], .syncLoop, .syncLoop,
    .pushLog [3], .syncLoop, .loop .rpc [] 0, .loop .rpc (ascii "20240306") 5,
    .loop .rpc [] 0, .syncLoop, .syncLoop, .syncLoop, .syncLoop, .syncLoop,
    .pushLog [4], .syncLoop, .syncLoop, .syncLoop, .syncLoop, .pushLog [5]]

theorem lines_conserved_onTheWay :
    ∃ final, logging.Run (.initial [] [] 1) onTheWay final ∧
      ((final.asyncLogger .rpc).written ++ (final.asyncLogger .rpc).point.held ++
          (final.asyncLogger .rpc).buffer.flatten ++ SyncPoint.held .rpc final.timer ++
          final.buffer .rpc = [[1], [], [3], [4], [5]] ∧
        (final.asyncLogger .rpc).fwrites.map FileWrite.text =
          (final.asyncLogger .rpc).written.filter fun line => !line.isEmpty) := by
  have computed : (onTheWay.foldlM step (initial [] [] 1)).map
      (fun final => (final.asyncLogger .rpc).fwrites) =
        some [⟨some (ascii "_rpc_20240306_log.0"), [1]⟩] := by
    decide +kernel
  rcases run_of_steps computed with ⟨final, run, _⟩
  exact ⟨final, run, lines_conserved run (by decide) .rpc⟩

end Logger

end NetRpc
