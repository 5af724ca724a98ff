import Mathlib.Data.List.ReduceOption
import NetRpc.Foundation.Queue

/-! # The tasks of the event loop

`loop` swaps the queue out and runs what it has swapped out without the lock,
while tasks, other threads and its own dispatch of events add to the new
queue. What is swapped out and what is pending are one queue all the same.
-/

namespace NetRpc.EventLoop

variable {Callback : Type u}

/-- A `std::function<void()>`, which may be empty. -/
abbrev QueuedTask (Callback : Type u) := Option Callback

/-- One event that `epoll_wait` reports, with the handlers of its `FdEvent`. -/
structure TriggerEvent (Callback : Type u) where
  isNull : Bool
  epollIn : Bool
  epollOut : Bool
  epollErr : Bool
  inHandler : QueuedTask Callback
  outHandler : QueuedTask Callback
  errorHandler : QueuedTask Callback

/-- What `loop` adds for an event. After an error it adds the write handler. -/
def TriggerEvent.tasks (event : TriggerEvent Callback) : List (QueuedTask Callback) :=
  if event.isNull then []
  else
    (if event.epollIn then [event.inHandler] else []) ++
      (if event.epollOut then [event.outHandler] else []) ++
      (if event.epollErr && event.errorHandler.isSome then [event.outHandler] else [])

/-- Where the thread that executes `loop` is. -/
inductive TaskPoint (Callback : Type u)
  /-- In front of `while (!m_quit)`. -/
  | head
  /-- In front of the swap. -/
  | entered
  /-- In front of `while (!tmp_tasks.empty())`. -/
  | draining (tmpTasks : List (QueuedTask Callback))
  /-- Inside `cb()`. -/
  | running (callback : Callback) (tmpTasks : List (QueuedTask Callback))
  /-- Inside `epoll_wait`. -/
  | waiting
  /-- Behind `epoll_wait`, with these tasks still to be added. -/
  | dispatching (tasks : List (QueuedTask Callback))
  | left
deriving DecidableEq

structure TaskLoop (Callback : Type u) where
  pendingTasks : List (QueuedTask Callback)
  quit : Bool
  point : TaskPoint Callback
deriving DecidableEq

inductive TaskEvent (Callback : Type u)
  | checkQuit
  | swap
  /-- `front` and `pop`. -/
  | take (task : QueuedTask Callback)
  /-- A callback returns. -/
  | finish (callback : Callback)
  | epollWait
  /-- `epoll_wait` returns with these events, or with none after an error. -/
  | epollReturn (events : List (TriggerEvent Callback))
  /-- The loop calls `addTask` for an event. -/
  | dispatch (task : QueuedTask Callback)
  /-- Another thread, or the running task, calls `addTask`. -/
  | addTask (task : QueuedTask Callback)
  | stop

namespace TaskLoop

variable [DecidableEq Callback]

/-- In front of the loop. -/
def initial (Callback : Type u) : TaskLoop Callback where
  pendingTasks := []
  quit := false
  point := .head

def addTask (state : TaskLoop Callback) (task : QueuedTask Callback) : TaskLoop Callback :=
  { state with pendingTasks := state.pendingTasks ++ [task] }

def step (state : TaskLoop Callback) : TaskEvent Callback → Option (TaskLoop Callback)
  | .checkQuit =>
      match state.point with
      | .head | .dispatching [] =>
          some { state with point := if state.quit then .left else .entered }
      | _ => none
  | .swap =>
      match state.point with
      | .entered => some { state with pendingTasks := [], point := .draining state.pendingTasks }
      | _ => none
  | .take task =>
      match state.point with
      | .draining (front :: tmpTasks) =>
          if front = task then
            match front with
            | some callback => some { state with point := .running callback tmpTasks }
            | none => some { state with point := .draining tmpTasks }
          else none
      | _ => none
  | .finish callback =>
      match state.point with
      | .running current tmpTasks =>
          if current = callback then some { state with point := .draining tmpTasks } else none
      | _ => none
  | .epollWait =>
      match state.point with
      | .draining [] => some { state with point := .waiting }
      | _ => none
  | .epollReturn events =>
      match state.point with
      | .waiting => some { state with point := .dispatching (events.flatMap TriggerEvent.tasks) }
      | _ => none
  | .dispatch task =>
      match state.point with
      | .dispatching (front :: tasks) =>
          if front = task then
            some { state.addTask task with point := .dispatching tasks }
          else none
      | _ => none
  | .addTask task => some (state.addTask task)
  | .stop => some { state with quit := true }

end TaskLoop

/-- One thread in `loop`, and any others. -/
def taskQueue (Callback : Type u) [DecidableEq Callback] :
    Transition.System (TaskLoop Callback) (TaskEvent Callback) where
  Initial state := state = .initial Callback
  Step state event next := state.step event = some next

namespace TaskPoint

/-- What is left of the queue that has been swapped out. -/
def rest : TaskPoint Callback → List (QueuedTask Callback)
  | .draining tmpTasks | .running _ tmpTasks => tmpTasks
  | _ => []

/-- The task being run. -/
def current : TaskPoint Callback → List (QueuedTask Callback)
  | .running callback _ => [some callback]
  | _ => []

end TaskPoint

namespace TaskEvent

/-- The task that an event puts into the queue. -/
def added : TaskEvent Callback → List (QueuedTask Callback)
  | .dispatch task | .addTask task => [task]
  | _ => []

/-- The task that an event takes from the queue. -/
def taken : TaskEvent Callback → List (QueuedTask Callback)
  | .take task => [task]
  | _ => []

/-- The task that is done with an event. An empty one is done when it is taken. -/
def executed : TaskEvent Callback → List (QueuedTask Callback)
  | .take none => [none]
  | .finish callback => [some callback]
  | _ => []

/-- The callback that is called by an event. -/
def started : TaskEvent Callback → List Callback
  | .take (some callback) => [callback]
  | _ => []

/-- The event as an operation on the queue. -/
def operations : TaskEvent Callback → List (Queue.Operation (QueuedTask Callback))
  | .dispatch task | .addTask task => [.put [task]]
  | .take task => [.take 1 [task]]
  | _ => []

theorem puts_operations (event : TaskEvent Callback) :
    event.operations.flatMap Queue.Operation.puts = event.added := by
  cases event <;> rfl

theorem takes_operations (event : TaskEvent Callback) :
    event.operations.flatMap Queue.Operation.takes = event.taken := by
  cases event <;> rfl

theorem started_eq_taken (events : List (TaskEvent Callback)) :
    events.flatMap started = (events.flatMap taken).reduceOption := by
  induction events with
  | nil => rfl
  | cons event events induction =>
      have first : event.started = event.taken.reduceOption := by
        cases event with
        | take task => cases task <;> rfl
        | _ => rfl
      rw [List.flatMap_cons, List.flatMap_cons, List.reduceOption_append, first, induction]

end TaskEvent

variable [DecidableEq Callback]

/-- The swapped-out queue and the pending one, as one queue. -/
def TaskLoop.queue (state : TaskLoop Callback) : List (QueuedTask Callback) :=
  state.point.rest ++ state.pendingTasks

/-- What one step does to the queue and to the task being run. -/
structure StepEffect (state : TaskLoop Callback) (event : TaskEvent Callback)
    (next : TaskLoop Callback) : Prop where
  queued : Queue.fifo.Run state.queue event.operations next.queue
  ran : state.point.current ++ event.taken = event.executed ++ next.point.current

omit [DecidableEq Callback] in
theorem StepEffect.silent {state next : TaskLoop Callback} {event : TaskEvent Callback}
    (operations : event.operations = []) (taken : event.taken = []) (executed : event.executed = [])
    (queue : next.queue = state.queue) (current : next.point.current = state.point.current) :
    StepEffect state event next where
  queued := by
    rw [operations, queue]
    exact .nil _
  ran := by rw [taken, executed, current, List.append_nil, List.nil_append]

theorem stepEffect_checkQuit {state next : TaskLoop Callback}
    (stepped : state.step .checkQuit = some next) : StepEffect state .checkQuit next := by
  rcases state with ⟨pendingTasks, quit, point⟩
  have idle : ∀ place : TaskPoint Callback, place.rest = [] → place.current = [] →
      StepEffect ⟨pendingTasks, quit, place⟩ .checkQuit
        ⟨pendingTasks, quit, if quit then .left else .entered⟩ := by
    intro place noRest noCurrent
    apply StepEffect.silent rfl rfl rfl
    · rw [TaskLoop.queue, TaskLoop.queue, noRest]
      cases quit <;> rfl
    · rw [noCurrent]
      cases quit <;> rfl
  cases point with
  | head =>
      cases stepped
      exact idle .head rfl rfl
  | dispatching tasks =>
      cases tasks with
      | nil =>
          cases stepped
          exact idle (.dispatching []) rfl rfl
      | cons => cases stepped
  | _ => cases stepped

theorem stepEffect_take {state next : TaskLoop Callback} {task : QueuedTask Callback}
    (stepped : state.step (.take task) = some next) : StepEffect state (.take task) next := by
  rcases state with ⟨pendingTasks, quit, point⟩
  cases point with
  | draining tmpTasks =>
      cases tmpTasks with
      | nil => cases stepped
      | cons front tmpTasks =>
          simp only [TaskLoop.step, Option.ite_none_right_eq_some] at stepped
          rcases stepped with ⟨rfl, stepped⟩
          have taken : Queue.fifo.Run (front :: tmpTasks ++ pendingTasks) [.take 1 [front]]
              (tmpTasks ++ pendingTasks) := Queue.take _ 1
          cases front with
          | none =>
              cases stepped
              exact ⟨taken, rfl⟩
          | some callback =>
              cases stepped
              exact ⟨taken, rfl⟩
  | _ => cases stepped

theorem stepEffect {state next : TaskLoop Callback} {event : TaskEvent Callback}
    (stepped : state.step event = some next) : StepEffect state event next := by
  rcases state with ⟨pendingTasks, quit, point⟩
  cases event with
  | checkQuit => exact stepEffect_checkQuit stepped
  | swap =>
      cases point with
      | entered =>
          cases stepped
          exact .silent rfl rfl rfl (List.append_nil pendingTasks) rfl
      | _ => cases stepped
  | take task => exact stepEffect_take stepped
  | finish callback =>
      cases point with
      | running current tmpTasks =>
          simp only [TaskLoop.step, Option.ite_none_right_eq_some] at stepped
          rcases stepped with ⟨rfl, ⟨⟩⟩
          exact ⟨.nil _, rfl⟩
      | _ => cases stepped
  | epollWait =>
      cases point with
      | draining tmpTasks =>
          cases tmpTasks with
          | nil =>
              cases stepped
              exact .silent rfl rfl rfl rfl rfl
          | cons => cases stepped
      | _ => cases stepped
  | epollReturn events =>
      cases point with
      | waiting =>
          cases stepped
          exact .silent rfl rfl rfl rfl rfl
      | _ => cases stepped
  | dispatch task =>
      cases point with
      | dispatching tasks =>
          cases tasks with
          | nil => cases stepped
          | cons front tasks =>
              simp only [TaskLoop.step, Option.ite_none_right_eq_some] at stepped
              rcases stepped with ⟨rfl, ⟨⟩⟩
              exact ⟨Queue.put pendingTasks [front], rfl⟩
      | _ => cases stepped
  | addTask task =>
      cases stepped
      refine ⟨?_, List.append_nil _⟩
      rw [TaskLoop.queue, TaskLoop.queue, TaskLoop.addTask, ← List.append_assoc]
      exact Queue.put _ [task]
  | stop =>
      cases stepped
      exact .silent rfl rfl rfl rfl rfl

/-- Every run of the loop is a run of one queue. -/
theorem taskQueue_refines {initial final : TaskLoop Callback} {events : List (TaskEvent Callback)}
    (run : (taskQueue Callback).Run initial events final) :
    Queue.fifo.Run initial.queue (events.flatMap TaskEvent.operations) final.queue := by
  apply run.simulates (fun _ => True)
  · intro current event next _ _
    trivial
  · intro current event next _ stepped
    exact (stepEffect stepped).queued
  · trivial

/-- What has been taken has been executed, or is being run. -/
theorem taken_eq_executed {initial final : TaskLoop Callback} {events : List (TaskEvent Callback)}
    (run : (taskQueue Callback).Run initial events final) (idle : initial.point.current = []) :
    events.flatMap TaskEvent.taken = events.flatMap TaskEvent.executed ++ final.point.current := by
  apply run.history fun events state =>
    events.flatMap TaskEvent.taken = events.flatMap TaskEvent.executed ++ state.point.current
  · intro events current event next before stepped
    rw [List.flatMap_append, List.flatMap_append, List.flatMap_singleton, List.flatMap_singleton,
      before, List.append_assoc, List.append_assoc, (stepEffect stepped).ran]
  · rw [idle]
    rfl

/-- At every point of every run, the tasks executed, the one being run, the rest
of the swapped-out queue and the pending queue are the tasks that have been
added, in that order. The callbacks called are the tasks among them that are
not empty. -/
theorem tasks_conserved {initial final : TaskLoop Callback} {events : List (TaskEvent Callback)}
    (isInitial : (taskQueue Callback).Initial initial)
    (run : (taskQueue Callback).Run initial events final) :
    events.flatMap TaskEvent.executed ++ final.point.current ++ final.point.rest ++
        final.pendingTasks = events.flatMap TaskEvent.added ∧
      events.flatMap TaskEvent.started =
        (events.flatMap TaskEvent.executed ++ final.point.current).reduceOption := by
  have start : initial = .initial Callback := isInitial
  have taken := taken_eq_executed run (by rw [start]; rfl)
  have conserved := Queue.conservation (taskQueue_refines run)
  rw [List.flatMap_assoc, List.flatMap_assoc] at conserved
  simp only [TaskEvent.puts_operations, TaskEvent.takes_operations] at conserved
  constructor
  · rw [← taken, List.append_assoc, ← TaskLoop.queue, ← conserved, start]
    rfl
  · rw [← taken, TaskEvent.started_eq_taken]

/-- While the first task runs, it adds another, and a second thread adds a
third. The handler of an event is empty. -/
def busyEvents : List (TaskEvent Nat) := [
  .addTask (some 1), .checkQuit, .swap, .take (some 1), .addTask (some 2), .addTask (some 3),
  .finish 1, .epollWait,
  .epollReturn [⟨false, true, false, true, some 4, none, some 5⟩], .dispatch (some 4),
  .addTask (some 6), .dispatch none, .checkQuit, .swap, .take (some 2), .addTask (some 7)]

theorem tasks_conserved_busy :
    busyEvents.flatMap TaskEvent.executed ++ [some 2] ++ [some 3, some 4, some 6, none] ++
        [some 7] = busyEvents.flatMap TaskEvent.added ∧
      busyEvents.flatMap TaskEvent.started =
        (busyEvents.flatMap TaskEvent.executed ++ [some 2]).reduceOption :=
  @tasks_conserved Nat _ _ ⟨[some 7], false, .running 2 [some 3, some 4, some 6, none]⟩ _ rfl
    (.of_foldlM (fun _ _ _ stepped => stepped) (by decide))

end NetRpc.EventLoop
