import NetRpc.Common.Logger

/-! # Shutting the logs down

A thread that has been told to stop returns after the batch it is at, and does
not look at the queue again. It is not woken either. Whether a log is drained is
decided by how many batches are under way when its thread is told to stop.
-/

namespace NetRpc.Logger

/-- No line is pushed once `flush` has been called. -/
def Quiet (state : Logger) : LogStep → Prop
  | .pushLog _ | .pushAppLog _ => state.flush = .notCalled
  | .syncLoop | .loop .. | .wake _ | .flush => True

instance (state : Logger) (event : LogStep) : Decidable (state.Quiet event) := by
  cases event <;> unfold Quiet <;> infer_instance

def shuttingDown : Transition.System Logger LogStep :=
  logging.restrict Quiet

/-- The thread of the log waits for a batch, and nobody is left to push one. -/
structure Stranded (state : Logger) (target : LogTarget) : Prop where
  stopFlag : (state.asyncLogger target).stopFlag = true
  empty : (state.asyncLogger target).buffer = []
  waiting : (state.asyncLogger target).point = .waiting
  unpushed : state.buffer target = []
  timer : SyncPoint.held target state.timer = []
  flush : SyncPoint.held target state.flush.sync = []

instance (state : Logger) (target : LogTarget) : Decidable (state.Stranded target) :=
  decidable_of_iff ((state.asyncLogger target).stopFlag = true ∧
      (state.asyncLogger target).buffer = [] ∧ (state.asyncLogger target).point = .waiting ∧
      state.buffer target = [] ∧ SyncPoint.held target state.timer = [] ∧
      SyncPoint.held target state.flush.sync = [])
    ⟨fun ⟨stopFlag, empty, waiting, unpushed, timer, flush⟩ =>
        ⟨stopFlag, empty, waiting, unpushed, timer, flush⟩,
      fun ⟨stopFlag, empty, waiting, unpushed, timer, flush⟩ =>
        ⟨stopFlag, empty, waiting, unpushed, timer, flush⟩⟩

/-- If the thread has returned, it has written all lines. It is not left
waiting. -/
structure Drained (state : Logger) (target : LogTarget) : Prop where
  written : (state.asyncLogger target).point = .returned →
    (state.asyncLogger target).written.Perm (state.pushed target)
  woken : ¬state.Stranded target

/-- One if there are lines to push as a batch. -/
def batches (lines : List Bytes) : Nat :=
  if lines.isEmpty then 0 else 1

/-- The batches that are in the queue, in the hands of the thread, or still to
be pushed by a call of `syncLoop` that the timer has made. -/
def turns (state : Logger) (target : LogTarget) : Nat :=
  (state.asyncLogger target).turns + batches (SyncPoint.held target state.timer)

/-- When a thread is told to stop, exactly one batch is under way to it. -/
def Ready (target : LogTarget) (state : Logger) (event : LogStep) : Prop :=
  event = .flush → state.flush = .stopping target → state.turns target = 1

instance (target : LogTarget) (state : Logger) (event : LogStep) :
    Decidable (Ready target state event) :=
  inferInstanceAs (Decidable (_ → _ → _))

/-! ## What holds in every state -/

/-- No line is lost, though two calls of `syncLoop` at once may swap their
batches. The flag of a thread is set, and a buffer stays empty, once `flush` has
come past it. -/
structure Consistent (state : Logger) : Prop where
  server : state.type = 1
  sound : ∀ target, (state.asyncLogger target).Sound
  lines : ∀ target, (state.lines target state.timer ++
    SyncPoint.held target state.flush.sync).Perm (state.pushed target)
  stopFlag : ∀ target, (state.asyncLogger target).stopFlag = state.flush.stopped target
  swapped : ∀ target, state.flush.swapped target = true → state.buffer target = []

variable {state current next final : Logger} {event : LogStep} {target : LogTarget}

theorem Consistent.type_ne_zero (consistent : state.Consistent) : state.type ≠ 0 := by
  rw [consistent.server]
  decide

theorem sync_of_stopped {flush : FlushPoint} (stopped : flush.stopped target = true) :
    flush.sync = none := by
  cases flush with
  | stopping other => rfl
  | done => rfl
  | notCalled | syncing => cases stopped

theorem stopped_stopping (target : LogTarget) :
    (FlushPoint.stopping target).stopped target = false := by
  cases target <;> rfl

theorem stopped_afterStop (other target : LogTarget) :
    (FlushPoint.afterStop other).stopped target =
      (decide (target = other) || (FlushPoint.stopping other).stopped target) := by
  cases other <;> cases target <;> rfl

theorem swapped_of_stopped {flush : FlushPoint} (stopped : flush.stopped target = true) :
    flush.swapped target = true := by
  cases flush with
  | stopping other => rfl
  | done => rfl
  | notCalled | syncing => cases stopped

/-- A permutation that takes the vector of the other thread along. -/
theorem lines_perm (state : Logger) (target : LogTarget) (first second : Option SyncPoint) :
    (state.lines target first ++ SyncPoint.held target second).Perm
      (state.lines target second ++ SyncPoint.held target first) := by
  rw [List.perm_iff_count]
  intro line
  simp only [lines, List.count_append]
  omega

theorem step_lines_perm (consistent : state.Consistent) (step : state.step event = some next)
    (target : LogTarget) :
    (next.lines target next.timer ++ SyncPoint.held target next.flush.sync).Perm
      (next.pushed target) := by
  by_cases flush : event = .flush
  · subst flush
    rcases flushStep_frame step with ⟨_, timer, pushed⟩
    rw [pushed]
    refine (lines_perm next target _ _).trans ?_
    rw [flushStep_lines step, timer]
    exact (lines_perm state target _ _).trans (consistent.lines target)
  · rcases step_frame consistent.type_ne_zero step flush with ⟨_, flushPoint, pushed⟩
    rw [pushed, step_lines consistent.type_ne_zero step flush, flushPoint]
    have before := (consistent.lines target).append_right (event.line target)
    refine List.Perm.trans ?_ before
    rw [List.append_assoc, List.append_assoc]
    exact List.perm_append_comm.append_left _

theorem syncStep_stopFlag (state : Logger) (point : SyncPoint) (target : LogTarget) :
    ((state.syncStep point).1.asyncLogger target).stopFlag =
      (state.asyncLogger target).stopFlag := by
  cases point with
  | swapping other => rfl
  | pushing other tmp =>
      simp only [syncStep]
      split
      · rfl
      · have kept : ((state.asyncLogger other).pushLogBuffer tmp).stopFlag =
            (state.asyncLogger other).stopFlag := rfl
        exact setAsyncLogger_same AsyncLogger.stopFlag kept target

theorem syncStep_buffer (state : Logger) (point : SyncPoint) (target : LogTarget) :
    (state.syncStep point).1.buffer target =
      if point = .swapping target then [] else state.buffer target := by
  cases point with
  | swapping other =>
      by_cases equal : target = other
      · subst equal
        simp [syncStep]
      · simp [syncStep, equal, Ne.symm equal]
  | pushing other tmp =>
      simp only [syncStep]
      split <;> rfl

theorem step_stopFlag (step : state.step event = some next) (unflushed : event ≠ .flush)
    (target : LogTarget) :
    (next.asyncLogger target).stopFlag = (state.asyncLogger target).stopFlag := by
  cases event with
  | pushLog msg =>
      cases step
      unfold pushLog
      split <;> rfl
  | pushAppLog msg =>
      cases step
      rfl
  | syncLoop =>
      cases step
      unfold syncLoop
      split
      · rfl
      · exact syncStep_stopFlag state _ target
  | loop other date ftell =>
      rcases Option.map_eq_some_iff.mp step with ⟨logger, looped, rfl⟩
      exact setAsyncLogger_same AsyncLogger.stopFlag (AsyncLogger.loop_stopFlag looped) target
  | wake other =>
      cases step
      have kept : (state.asyncLogger other).wake.stopFlag =
        (state.asyncLogger other).stopFlag := rfl
      exact setAsyncLogger_same AsyncLogger.stopFlag kept target
  | flush => contradiction

/-- An empty buffer stays empty where nothing is pushed. -/
theorem step_buffer (step : shuttingDown.Step state event next) (unflushed : event ≠ .flush)
    (called : state.flush ≠ .notCalled) (empty : state.buffer target = []) :
    next.buffer target = [] := by
  rcases step with ⟨step, quiet⟩
  cases event with
  | pushLog msg => exact absurd quiet called
  | pushAppLog msg => exact absurd quiet called
  | syncLoop =>
      cases step
      unfold syncLoop
      split
      · exact empty
      · next point _ =>
          rw [syncStep_buffer, empty, ite_self]
  | loop other date ftell =>
      rcases Option.map_eq_some_iff.mp step with ⟨logger, looped, rfl⟩
      exact empty
  | wake other =>
      cases step
      exact empty
  | flush => contradiction

theorem stop_stopFlag (state : Logger) (other target : LogTarget) :
    ((state.stop other).asyncLogger target).stopFlag =
      (decide (target = other) || (state.asyncLogger target).stopFlag) := by
  by_cases equal : target = other
  · subst equal
    simp [stop, AsyncLogger.stop]
  · simp [stop, equal]

/-- `flush` sets the flags in its order. -/
theorem flushStep_stopFlag (flushed : state.flushStep = some next)
    (stopFlag : (state.asyncLogger target).stopFlag = state.flush.stopped target) :
    (next.asyncLogger target).stopFlag = next.flush.stopped target := by
  cases flushStep_cases flushed with
  | call notCalled =>
      rw [notCalled] at stopFlag
      exact stopFlag
  | sync point syncing =>
      rw [syncing] at stopFlag
      refine (syncStep_stopFlag state point target).trans (stopFlag.trans ?_)
      cases (state.syncStep point).2 <;> rfl
  | stop other stopping =>
      rw [stopping] at stopFlag
      refine (stop_stopFlag state other target).trans ?_
      rw [stopFlag]
      exact (stopped_afterStop other target).symm

/-- `flush` empties the buffers in its order. -/
theorem flushStep_buffer (flushed : state.flushStep = some next)
    (swapped : state.flush.swapped target = true → state.buffer target = [])
    (later : next.flush.swapped target = true) : next.buffer target = [] := by
  cases flushStep_cases flushed with
  | call notCalled => cases later
  | sync point syncing =>
      rw [syncing] at swapped
      refine (syncStep_buffer state point target).trans ?_
      split
      · rfl
      · next other =>
          apply swapped
          cases point with
          | swapping swapping =>
              cases swapping <;> cases target <;>
                first | rfl | exact absurd rfl other | cases later
          | pushing pushing tmp =>
              cases pushing <;> cases target <;>
                first | rfl | cases later
  | stop other stopping =>
      rw [stopping] at swapped
      exact swapped rfl

theorem initial_consistent (fileName filePath : Bytes) (maxFileSize : Int) :
    (initial fileName filePath maxFileSize).Consistent where
  server := rfl
  sound := initial_sound fileName filePath maxFileSize
  lines target := by
    cases target <;> exact .nil
  stopFlag target := by
    cases target <;> rfl
  swapped _ early := by cases early

theorem step_consistent (consistent : state.Consistent)
    (step : shuttingDown.Step state event next) : next.Consistent := by
  have sound := step_sound consistent.sound step.1
  have lines := step_lines_perm consistent step.1
  by_cases flush : event = .flush
  · subst flush
    exact {
      server := (flushStep_frame step.1).1.trans consistent.server
      sound, lines
      stopFlag := fun target => flushStep_stopFlag step.1 (consistent.stopFlag target)
      swapped := fun target => flushStep_buffer step.1 (consistent.swapped target) }
  · rcases step_frame consistent.type_ne_zero step.1 flush with ⟨type, point, _⟩
    refine {
      server := type.trans consistent.server
      sound, lines
      stopFlag := fun target => ?_
      swapped := fun target later => ?_ }
    · rw [step_stopFlag step.1 flush, point]
      exact consistent.stopFlag target
    · rw [point] at later
      refine step_buffer step flush (fun notCalled => ?_) (consistent.swapped target later)
      rw [notCalled] at later
      cases later

/-! ## The batches under way -/

theorem syncStep_turns (empty : state.buffer target = []) (point : SyncPoint) :
    ((state.syncStep point).1.asyncLogger target).turns +
        batches (SyncPoint.held target (state.syncStep point).2) =
      (state.asyncLogger target).turns + batches (SyncPoint.held target (some point)) := by
  cases point with
  | swapping other =>
      have taken : SyncPoint.held target (state.syncStep (.swapping other)).2 = [] := by
        by_cases equal : other = target
        · subst equal
          simp [syncStep, SyncPoint.held, empty]
        · simp [syncStep, SyncPoint.held, equal]
      rw [taken]
      rfl
  | pushing other tmp =>
      have handed : SyncPoint.held target (state.syncStep (.pushing other tmp)).2 = [] := by
        cases other <;> rfl
      rw [handed]
      by_cases nothing : tmp = []
      · subst nothing
        simp [syncStep, SyncPoint.held]
      · by_cases equal : other = target
        · subst equal
          simp [syncStep, SyncPoint.held, batches, nothing, AsyncLogger.pushLogBuffer_turns]
        · simp [syncStep, SyncPoint.held, nothing, equal, Ne.symm equal]

theorem syncStep_returned (state : Logger) (point : SyncPoint) (target : LogTarget) :
    ((state.syncStep point).1.asyncLogger target).point = .returned ↔
      (state.asyncLogger target).point = .returned := by
  cases point with
  | swapping other => rfl
  | pushing other tmp =>
      simp only [syncStep]
      split
      · rfl
      · by_cases equal : target = other
        · subst equal
          rw [setAsyncLogger_self]
          exact AsyncLogger.wake_returned _
        · rw [setAsyncLogger_other equal]

/-- Once a thread has been told to stop, no batch gets under way any more. The
thread takes one off when it returns. -/
theorem step_turns (consistent : state.Consistent)
    (stopped : state.flush.stopped target = true)
    (step : shuttingDown.Step state event next) :
    next.turns target = state.turns target ∧
        ((next.asyncLogger target).point = .returned ↔
          (state.asyncLogger target).point = .returned) ∨
      state.turns target = next.turns target + 1 ∧
        (next.asyncLogger target).point = .returned := by
  rcases step with ⟨step, quiet⟩
  have called : state.flush ≠ .notCalled := by
    intro notCalled
    rw [notCalled] at stopped
    cases stopped
  cases event with
  | pushLog msg => exact absurd quiet called
  | pushAppLog msg => exact absurd quiet called
  | syncLoop =>
      cases step
      left
      cases stands : state.timer with
      | none => simp [syncLoop, stands, turns, SyncPoint.held]
      | some point =>
          have empty := consistent.swapped target (swapped_of_stopped stopped)
          simp only [syncLoop, stands, turns]
          exact ⟨syncStep_turns empty point, syncStep_returned state point target⟩
  | loop other date ftell =>
      rcases Option.map_eq_some_iff.mp step with ⟨logger, looped, rfl⟩
      by_cases equal : target = other
      · subst equal
        have set := (consistent.stopFlag target).trans stopped
        rcases AsyncLogger.loop_turns looped with ⟨same, after, before⟩ | ⟨_, fewer, returned⟩
        · left
          rw [turns, setAsyncLogger_self, same]
          exact ⟨rfl, iff_of_false after before⟩
        · right
          rw [turns, turns, setAsyncLogger_self, fewer]
          exact ⟨Nat.add_right_comm _ 1 _, returned.mpr set⟩
      · left
        rw [turns, setAsyncLogger_other equal]
        exact ⟨rfl, Iff.rfl⟩
  | wake other =>
      cases step
      left
      by_cases equal : target = other
      · subst equal
        rw [turns, setAsyncLogger_self, AsyncLogger.wake_turns]
        exact ⟨rfl, AsyncLogger.wake_returned _⟩
      · rw [turns, setAsyncLogger_other equal]
        exact ⟨rfl, Iff.rfl⟩
  | flush =>
      left
      cases flushStep_cases step with
      | call notCalled => contradiction
      | sync point syncing =>
          rw [syncing] at stopped
          cases stopped
      | stop other stopping =>
          rw [stopping] at stopped
          have different : target ≠ other := by
            rintro rfl
            rw [stopped_stopping] at stopped
            cases stopped
          rw [turns, stop, setAsyncLogger_other different]
          exact ⟨rfl, Iff.rfl⟩

theorem step_stopped (consistent : state.Consistent) (step : shuttingDown.Step state event next)
    (before : state.flush.stopped target = true) : next.flush.stopped target = true := by
  by_cases flush : event = .flush
  · subst flush
    cases flushStep_cases step.1 with
    | call notCalled =>
        rw [notCalled] at before
        cases before
    | sync point syncing =>
        rw [syncing] at before
        cases before
    | stop other stopping =>
        rw [stopping] at before
        refine (stopped_afterStop other target).trans ?_
        rw [before, Bool.or_true]
  · rw [(step_frame consistent.type_ne_zero step.1 flush).2.1]
    exact before

/-- A thread told to stop has one batch under way, or it has returned and
there is none. -/
def Finishing (state : Logger) (target : LogTarget) : Prop :=
  state.flush.stopped target = true →
    state.turns target = 1 ∧ (state.asyncLogger target).point ≠ .returned ∨
      state.turns target = 0 ∧ (state.asyncLogger target).point = .returned

/-- The step that sets the flag of a thread changes nothing else about it. -/
theorem flushStep_stopped (flushed : state.flushStep = some next)
    (before : state.flush.stopped target = false) (after : next.flush.stopped target = true) :
    state.flush = .stopping target ∧ next.turns target = state.turns target ∧
      (next.asyncLogger target).point = (state.asyncLogger target).point := by
  cases flushStep_cases flushed with
  | call notCalled => cases after
  | sync point syncing =>
      cases sync : (state.syncStep point).2 <;> rw [sync] at after <;> cases after
  | stop other stopping =>
      have set : (FlushPoint.afterStop other).stopped target = true := after
      rw [stopping] at before
      rw [stopped_afterStop, before, Bool.or_false, decide_eq_true_eq] at set
      subst set
      simp only [turns, stop, setAsyncLogger_self]
      exact ⟨stopping, rfl, rfl⟩

theorem step_finishing (consistent : state.Consistent) (finishing : state.Finishing target)
    (step : shuttingDown.Step state event next) (ready : state.Ready target event) :
    next.Finishing target := by
  intro after
  cases before : state.flush.stopped target with
  | true =>
      rcases step_turns consistent before step with ⟨same, returned⟩ | ⟨fewer, returned⟩
      · rw [same, Ne, returned]
        exact finishing before
      · rcases finishing before with ⟨one, _⟩ | ⟨none, _⟩
        · exact .inr ⟨by omega, returned⟩
        · omega
  | false =>
      by_cases flush : event = .flush
      · subst flush
        rcases flushStep_stopped step.1 before after with ⟨stopping, turns, point⟩
        left
        rw [turns, point]
        refine ⟨ready rfl stopping, fun returned => ?_⟩
        have set := (consistent.sound target).returned returned
        rw [consistent.stopFlag, before] at set
        cases set
      · rw [(step_frame consistent.type_ne_zero step.1 flush).2.1, before] at after
        cases after

/-! ## What is left behind -/

theorem batches_eq_zero {lines : List Bytes} : batches lines = 0 ↔ lines = [] := by
  cases lines <;> simp [batches]

theorem queue_eq_nil {queue : List (List Bytes)} (batches : [] ∉ queue) :
    queue.flatten = [] ↔ queue = [] := by
  constructor
  · intro flat
    cases queue with
    | nil => rfl
    | cons batch queue =>
        have empty := List.flatten_eq_nil_iff.mp flat batch List.mem_cons_self
        exact absurd (empty ▸ List.mem_cons_self) batches
  · rintro rfl
    rfl

/-- A thread that has returned has written everything exactly if nothing is
under way any more. -/
theorem written_iff (consistent : state.Consistent)
    (returned : (state.asyncLogger target).point = .returned) :
    (state.asyncLogger target).written.Perm (state.pushed target) ↔ state.turns target = 0 := by
  have sound := consistent.sound target
  have stopped := (consistent.stopFlag target).symm.trans (sound.returned returned)
  have unpushed := consistent.swapped target (swapped_of_stopped stopped)
  have whole := consistent.lines target
  rw [sync_of_stopped stopped, lines, AsyncLogger.lines, unpushed, returned] at whole
  simp only [AsyncLogger.LoopPoint.held, SyncPoint.held_none, List.append_nil,
    List.append_assoc] at whole
  have nothing : (state.asyncLogger target).buffer.flatten ++
      SyncPoint.held target state.timer = [] ↔ state.turns target = 0 := by
    rw [List.append_eq_nil_iff, queue_eq_nil sound.batches, turns, AsyncLogger.turns, returned,
      Nat.add_eq_zero_iff, batches_eq_zero, Nat.add_eq_zero_iff, List.length_eq_zero_iff]
    simp [AsyncLogger.LoopPoint.turns]
  rw [← nothing]
  constructor
  · intro written
    have lengths := whole.length_eq.trans written.length_eq.symm
    rw [List.length_append] at lengths
    exact List.length_eq_zero_iff.mp (by omega)
  · intro empty
    rw [empty, List.append_nil] at whole
    exact whole

theorem finishing_drained (consistent : state.Consistent) (finishing : state.Finishing target) :
    state.Drained target where
  written returned := by
    have stopped := (consistent.stopFlag target).symm.trans
      ((consistent.sound target).returned returned)
    rw [written_iff consistent returned]
    rcases finishing stopped with ⟨_, running⟩ | ⟨none, _⟩
    · contradiction
    · exact none
  woken stranded := by
    have stopped := (consistent.stopFlag target).symm.trans stranded.stopFlag
    have none : state.turns target = 0 := by
      rw [turns, AsyncLogger.turns, stranded.waiting, stranded.empty, stranded.timer]
      rfl
    rcases finishing stopped with ⟨one, _⟩ | ⟨_, returned⟩
    · omega
    · rw [stranded.waiting] at returned
      cases returned

/-! ## From a wrong number of batches on -/

/-- What a thread does alone it can do among the others. -/
theorem loop_run {start logger : AsyncLogger} {readings : List (Bytes × Int)}
    (run : AsyncLogger.looping.Run start readings logger) (target : LogTarget) :
    ∀ state : Logger, state.asyncLogger target = start →
      shuttingDown.Run state (readings.map fun reading => .loop target reading.1 reading.2)
        (state.setAsyncLogger target logger) := by
  induction run with
  | nil =>
      rintro state rfl
      rw [setAsyncLogger_eq_self]
      exact .nil _
  | @cons _ middle _ reading _ looped _ induction =>
      rintro state rfl
      have step : state.step (.loop target reading.1 reading.2) =
          some (state.setAsyncLogger target middle) :=
        Option.map_eq_some_iff.mpr ⟨middle, looped, rfl⟩
      have rest := induction _ (setAsyncLogger_self state target middle)
      rw [setAsyncLogger_idem] at rest
      exact .cons ⟨step, trivial⟩ rest

theorem run_consistent {events : List LogStep} (consistent : state.Consistent)
    (run : shuttingDown.Run state events next) : next.Consistent :=
  run.preserves Consistent (fun _ _ _ before step => step_consistent before step) consistent

theorem reachable_consistent (reachable : shuttingDown.Reachable state) : state.Consistent := by
  rcases reachable with ⟨start, events, ⟨fileName, filePath, maxFileSize, rfl⟩, run⟩
  exact run_consistent (initial_consistent fileName filePath maxFileSize) run

/-- Two batches or more: the thread returns after the first. -/
theorem left_behind (consistent : state.Consistent)
    (stopped : state.flush.stopped target = true)
    (running : (state.asyncLogger target).point ≠ .returned)
    (many : 1 < state.turns target) :
    ∃ later final, shuttingDown.Run state later final ∧ ¬final.Drained target := by
  have set := (consistent.stopFlag target).trans stopped
  have single : batches (SyncPoint.held target state.timer) ≤ 1 := by
    rw [batches]
    split <;> omega
  have busy : 0 < (state.asyncLogger target).turns := by
    rw [turns] at many
    omega
  rcases AsyncLogger.turn_returns (consistent.sound target) set busy running with
    ⟨readings, logger, alone, returned, fewer⟩
  have run := loop_run alone target state rfl
  have after : ((state.setAsyncLogger target logger).asyncLogger target).point = .returned := by
    rw [setAsyncLogger_self, returned]
  refine ⟨_, _, run, fun drained => ?_⟩
  have none := (written_iff (run_consistent consistent run) after).mp (drained.written after)
  rw [turns, setAsyncLogger_self] at none
  rw [turns, ← fewer] at many
  have timer : batches (SyncPoint.held target (state.setAsyncLogger target logger).timer) =
    batches (SyncPoint.held target state.timer) := rfl
  omega

/-- No batch: the thread waits for ever. -/
theorem stranded (consistent : state.Consistent)
    (stopped : state.flush.stopped target = true)
    (running : (state.asyncLogger target).point ≠ .returned)
    (none : state.turns target = 0) :
    ∃ later final, shuttingDown.Run state later final ∧ final.Stranded target := by
  have set := (consistent.stopFlag target).trans stopped
  have unpushed := consistent.swapped target (swapped_of_stopped stopped)
  have flush : SyncPoint.held target state.flush.sync = [] := by
    rw [sync_of_stopped stopped, SyncPoint.held_none]
  rw [turns, AsyncLogger.turns, Nat.add_eq_zero_iff, Nat.add_eq_zero_iff,
    List.length_eq_zero_iff, batches_eq_zero] at none
  rcases none with ⟨⟨idle, empty⟩, timer⟩
  cases point : (state.asyncLogger target).point with
  | testing =>
      have looped : (state.asyncLogger target).loop [] 0 =
          some { state.asyncLogger target with point := .waiting } := by
        simp only [AsyncLogger.loop, point, empty]
      refine ⟨_, _, loop_run (AsyncLogger.step_run looped) target state rfl, ?_⟩
      refine ⟨?_, ?_, ?_, unpushed, timer, flush⟩
      · rw [setAsyncLogger_self]
        exact set
      · rw [setAsyncLogger_self]
        exact empty
      · rw [setAsyncLogger_self]
  | waiting => exact ⟨[], state, .nil _, set, empty, point, unpushed, timer, flush⟩
  | taken | writing | flushed =>
      rw [point] at idle
      cases idle
  | returned => contradiction

/-- A thread that is stranded never returns, so joining it never ends. -/
theorem stranded_forever {events : List LogStep} (consistent : state.Consistent)
    (stranded : state.Stranded target) (run : shuttingDown.Run state events final) :
    (final.asyncLogger target).point ≠ .returned := by
  have preserved : ∀ current event next,
      (current.Consistent ∧ current.flush.stopped target = true ∧ current.turns target = 0 ∧
        (current.asyncLogger target).point ≠ .returned) →
      shuttingDown.Step current event next →
      next.Consistent ∧ next.flush.stopped target = true ∧ next.turns target = 0 ∧
        (next.asyncLogger target).point ≠ .returned := by
    rintro current event next ⟨before, stopped, none, running⟩ step
    refine ⟨step_consistent before step, step_stopped before step stopped, ?_⟩
    rcases step_turns before stopped step with ⟨same, returned⟩ | ⟨fewer, _⟩
    · rw [same, Ne, returned]
      exact ⟨none, running⟩
    · omega
  have none : state.turns target = 0 := by
    rw [turns, AsyncLogger.turns, stranded.waiting, stranded.empty, stranded.timer]
    rfl
  have running : (state.asyncLogger target).point ≠ .returned := by
    rw [stranded.waiting]
    exact AsyncLogger.LoopPoint.noConfusion
  have stopped := (consistent.stopFlag target).symm.trans stranded.stopFlag
  exact (run.preserves _ preserved ⟨consistent, stopped, none, running⟩).2.2.2

/-! ## Draining -/

/-- A log is drained in every run in which exactly one batch is under way when
its thread is told to stop. From every other such step on it can be left with
lines unwritten or with its thread waiting for ever. -/
theorem flush_drains (target : LogTarget) :
    (∀ state, (shuttingDown.restrict (Ready target)).Reachable state → state.Drained target) ∧
      ∀ current next, shuttingDown.Reachable current →
        shuttingDown.Step current .flush next → ¬current.Ready target .flush →
        ∃ later final, shuttingDown.Run next later final ∧ ¬final.Drained target := by
  constructor
  · intro state reachable
    have holds : state.Consistent ∧ state.Finishing target := by
      refine reachable.invariant (fun state => state.Consistent ∧ state.Finishing target) ?_ ?_
      · rintro start ⟨fileName, filePath, maxFileSize, rfl⟩
        refine ⟨initial_consistent fileName filePath maxFileSize, fun stopped => ?_⟩
        cases stopped
      · rintro current event next ⟨consistent, finishing⟩ ⟨step, ready⟩
        exact ⟨step_consistent consistent step,
          step_finishing consistent finishing step ready⟩
    exact finishing_drained holds.1 holds.2
  · intro current next reachable step unready
    have before := reachable_consistent reachable
    have consistent := step_consistent before step
    have stopping : current.flush = .stopping target := by
      by_contra other
      exact unready fun _ stopping => absurd stopping other
    have wrong : current.turns target ≠ 1 := fun one => unready fun _ _ => one
    have unset : current.flush.stopped target = false := by
      rw [stopping]
      exact stopped_stopping target
    have stopped : next.flush.stopped target = true := by
      have flushed : current.flushStep = some next := step.1
      rw [flushStep, stopping, Option.some.injEq] at flushed
      subst flushed
      refine (stopped_afterStop target target).trans ?_
      rw [decide_eq_true rfl, Bool.true_or]
    rcases flushStep_stopped step.1 unset stopped with ⟨_, turns, point⟩
    have running : (next.asyncLogger target).point ≠ .returned := by
      intro returned
      have set := (before.sound target).returned (point ▸ returned)
      rw [before.stopFlag, unset] at set
      cases set
    rcases Nat.lt_or_ge 1 (next.turns target) with many | few
    · exact left_behind consistent stopped running many
    · rcases stranded consistent stopped running (by omega) with ⟨later, final, run, stranded⟩
      exact ⟨later, final, run, fun drained => drained.woken stranded⟩

/-- One line is pushed, `flush` is called, and the thread writes the line after
it has been told to stop. -/
def oneBatch : List LogStep :=
  [.pushLog [1], .flush, .flush, .flush, .flush, .flush, .flush, .loop .rpc [] 0,
    .loop .rpc [] 0, .loop .rpc [] 0, .loop .rpc [] 0, .loop .rpc [] 0]

theorem flush_drains_oneBatch :
    ∃ final, (shuttingDown.restrict (Ready .rpc)).Run (.initial [] [] 1) oneBatch final ∧
      (final.asyncLogger .rpc).point = .returned ∧ final.Drained .rpc := by
  have agrees : ∀ current event next, step current event = some next →
      logging.Step current event next := fun _ _ _ stepped => stepped
  have computed : (oneBatch.foldlM
      (Transition.System.guarded (Ready .rpc) (Transition.System.guarded Quiet step))
      (initial [] [] 1)).map (fun final => (final.asyncLogger .rpc).point) = some .returned := by
    decide +kernel
  rcases Transition.System.Run.of_observed (Transition.System.restrict_of_guarded
    (Transition.System.restrict_of_guarded agrees)) computed with ⟨final, run, returned⟩
  have reachable : (shuttingDown.restrict (Ready .rpc)).Reachable final :=
    ⟨_, oneBatch, ⟨[], [], 1, rfl⟩, run⟩
  exact ⟨final, run, returned, (flush_drains .rpc).1 final reachable⟩

theorem quiet_run_of_steps {start : Logger} {events : List LogStep} {observe : Logger → α}
    {observed : α}
    (computed : (events.foldlM (Transition.System.guarded Quiet step) start).map observe =
      some observed) :
    ∃ final, shuttingDown.Run start events final ∧ observe final = observed :=
  Transition.System.Run.of_observed
    (Transition.System.restrict_of_guarded fun _ _ _ stepped => stepped) computed

/-- Two lines are handed over one after the other before `flush` is called. -/
def twoBatches : List LogStep :=
  [.pushLog [1], .syncLoop, .syncLoop, .syncLoop, .pushLog [2], .flush, .flush, .flush,
    .flush, .flush, .flush, .loop .rpc [] 0, .loop .rpc [] 0, .loop .rpc [] 0,
    .loop .rpc [] 0, .loop .rpc [] 0]

/-- The second of two batches is never written. With no batch under way the
thread waits when it has been told to stop. -/
theorem flush_leaves_lines :
    (∃ final, shuttingDown.Run (.initial [] [] 1) twoBatches final ∧
      (final.asyncLogger .rpc).point = .returned ∧
      (final.asyncLogger .rpc).written = [[1]] ∧ final.pushed .rpc = [[1], [2]] ∧
      ¬final.Drained .rpc) ∧
    ∃ final, shuttingDown.Run (.initial [] [] 1)
        [.loop .app [] 0, .flush, .flush, .flush, .flush, .flush, .flush, .flush] final ∧
      final.flush = .done ∧ ¬final.Drained .app := by
  constructor
  · have computed : (twoBatches.foldlM (Transition.System.guarded Quiet step)
        (initial [] [] 1)).map (fun final => ((final.asyncLogger .rpc).point,
          (final.asyncLogger .rpc).written, final.pushed .rpc)) =
        some (.returned, [[1]], [[1], [2]]) := by
      decide +kernel
    rcases quiet_run_of_steps computed with ⟨final, run, observed⟩
    simp only [Prod.mk.injEq] at observed
    rcases observed with ⟨returned, written, pushed⟩
    refine ⟨final, run, returned, written, pushed, fun drained => ?_⟩
    have lengths := (drained.written returned).length_eq
    rw [written, pushed] at lengths
    cases lengths
  · have computed : ([.loop .app [] 0, .flush, .flush, .flush, .flush, .flush, .flush,
        .flush].foldlM (Transition.System.guarded Quiet step) (initial [] [] 1)).map
          (fun final => (final.flush, decide (final.Stranded .app))) = some (.done, true) := by
      decide +kernel
    rcases quiet_run_of_steps computed with ⟨final, run, observed⟩
    simp only [Prod.mk.injEq, decide_eq_true_eq] at observed
    rcases observed with ⟨done, stranded⟩
    exact ⟨final, run, done, fun drained => drained.woken stranded⟩

end NetRpc.Logger
