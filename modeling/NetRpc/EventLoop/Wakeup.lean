import NetRpc.Foundation.Transition
import Mathlib.Algebra.Group.Nat.Defs
import Mathlib.Logic.Function.Basic

/-! # Waking the event loop

One thread runs `loop` while any others call `addTask(cb, true)`. They wake it
through an eventfd, and the callback that drains the eventfd is itself a task
of the loop. A wakeup is lost when the drain takes the notification of a task
that is still in the queue.
-/

namespace NetRpc.EventLoop

/-- The callbacks that the loop queues for ready descriptors. -/
inductive Handler
  /-- The read callback of the wakeup descriptor. -/
  | wakeUp
  | other (fd : Nat)
deriving DecidableEq

inductive Task
  | handler (handler : Handler)
  /-- The task of the numbered call of `addTask(cb, true)`. -/
  | added (call : Nat)
deriving DecidableEq

/-- Where the thread that runs `loop` is. -/
inductive LoopPoint
  | running (tmpTasks : List Task)
  /-- Inside the read callback of the wakeup descriptor. -/
  | draining (tmpTasks : List Task)
  /-- Inside `epoll_wait`. -/
  | waiting
  /-- Between `epoll_wait` and the next swap, with handlers still to queue. -/
  | queueing (handlers : List Handler)
deriving DecidableEq

/-- Where another thread is in `addTask(cb, true)`. -/
inductive CallPoint
  | outside
  | pushed (call : Nat)
  | notified (call : Nat)
deriving DecidableEq

/-- The eventfd after `wakeup`. The eight bytes it writes are the number 97, and
the write fails where the sum would pass the largest count. -/
def wakeup (counter : Nat) : Nat :=
  if counter + 97 ≤ 2 ^ 64 - 2 then counter + 97 else counter

theorem wakeup_ne_zero (counter : Nat) : wakeup counter ≠ 0 := by
  rw [wakeup]
  split <;> omega

/-- A task that calls `addTask(cb, true)` from inside the loop counts as one
more thread. -/
structure LoopState (Thread : Type) where
  pendingTasks : List Task
  /-- The counter of the eventfd. -/
  counter : Nat
  point : LoopPoint
  callers : Thread → CallPoint
  /-- The number of calls of `addTask(cb, true)` so far. -/
  calls : Nat
  /-- The calls that have written to the eventfd. -/
  notified : List Nat
  returned : List Nat

inductive LoopEvent (Thread : Type)
  | swap
  | runTask
  | startDrain
  | read
  | endDrain
  | epollWait
  | epollReturn
  | addHandler
  | push (thread : Thread)
  | wakeup (thread : Thread)
  | leave (thread : Thread)
deriving DecidableEq

variable {Thread : Type} [DecidableEq Thread]

namespace LoopState

def initial (Thread : Type) : LoopState Thread where
  pendingTasks := []
  counter := 0
  point := .queueing []
  callers := fun _ => .outside
  calls := 0
  notified := []
  returned := []

def moveTo (state : LoopState Thread) (thread : Thread) (point : CallPoint) :
    LoopState Thread :=
  { state with callers := Function.update state.callers thread point }

/-- The loop sleeps although a call whose task is in the queue has returned. -/
structure LostWakeup (state : LoopState Thread) : Prop where
  waits : state.point = .waiting
  unsignalled : state.counter = 0
  forgotten : ∃ call ∈ state.returned, .added call ∈ state.pendingTasks

end LoopState

open LoopState

inductive LoopStep : LoopState Thread → LoopEvent Thread → LoopState Thread → Prop
  | swap {state : LoopState Thread} :
      state.point = .queueing [] →
      LoopStep state .swap
        { state with pendingTasks := [], point := .running state.pendingTasks }
  | runTask {state : LoopState Thread} {task : Task} {tmpTasks : List Task} :
      state.point = .running (task :: tmpTasks) →
      task ≠ .handler .wakeUp →
      LoopStep state .runTask { state with point := .running tmpTasks }
  | startDrain {state : LoopState Thread} {tmpTasks : List Task} :
      state.point = .running (.handler .wakeUp :: tmpTasks) →
      LoopStep state .startDrain { state with point := .draining tmpTasks }
  /-- A read that succeeds leaves `errno` as it was: only if that is not `EAGAIN`
  is there another read. -/
  | read {state : LoopState Thread} {tmpTasks : List Task} (another : Bool) :
      state.point = .draining tmpTasks →
      state.counter ≠ 0 →
      LoopStep state .read
        { state with
          counter := 0
          point := if another then .draining tmpTasks else .running tmpTasks }
  | endDrain {state : LoopState Thread} {tmpTasks : List Task} :
      state.point = .draining tmpTasks →
      state.counter = 0 →
      LoopStep state .endDrain { state with point := .running tmpTasks }
  | epollWait {state : LoopState Thread} :
      state.point = .running [] →
      LoopStep state .epollWait { state with point := .waiting }
  | epollReturn {state : LoopState Thread} {handlers : List Handler} :
      state.point = .waiting →
      (.wakeUp ∈ handlers → state.counter ≠ 0) →
      handlers.count .wakeUp ≤ 1 →
      LoopStep state .epollReturn { state with point := .queueing handlers }
  | addHandler {state : LoopState Thread} {handler : Handler} {handlers : List Handler} :
      state.point = .queueing (handler :: handlers) →
      LoopStep state .addHandler
        { state with
          pendingTasks := state.pendingTasks ++ [.handler handler]
          point := .queueing handlers }
  | push {state : LoopState Thread} {thread : Thread} :
      state.callers thread = .outside →
      LoopStep state (.push thread)
        { state.moveTo thread (.pushed state.calls) with
          pendingTasks := state.pendingTasks ++ [.added state.calls]
          calls := state.calls + 1 }
  | wakeup {state : LoopState Thread} {thread : Thread} {call : Nat} :
      state.callers thread = .pushed call →
      LoopStep state (.wakeup thread)
        { state.moveTo thread (.notified call) with
          counter := EventLoop.wakeup state.counter
          notified := state.notified ++ [call] }
  | leave {state : LoopState Thread} {thread : Thread} {call : Nat} :
      state.callers thread = .notified call →
      LoopStep state (.leave thread)
        { state.moveTo thread .outside with returned := state.returned ++ [call] }

/-- One thread in `loop` and the callers. -/
def looping (Thread : Type) [DecidableEq Thread] :
    Transition.System (LoopState Thread) (LoopEvent Thread) where
  Initial state := state = .initial Thread
  Step := LoopStep

/-- A read of the eventfd takes no notification of a task that is in the queue. -/
def DrainsInTime (state : LoopState Thread) : LoopEvent Thread → Prop
  | .read => ∀ call ∈ state.notified, .added call ∉ state.pendingTasks
  | _ => True

/-! ## The calls of addTask -/

/-- What the records of the calls have to do with the callers. -/
structure Recorded (state : LoopState Thread) : Prop where
  notified_lt : ∀ call ∈ state.notified, call < state.calls
  pushed_lt : ∀ thread call, state.callers thread = .pushed call → call < state.calls
  notified_mem : ∀ thread call,
    state.callers thread = .notified call → call ∈ state.notified
  returned_mem : ∀ call ∈ state.returned, call ∈ state.notified
  leaving : ∀ call ∈ state.notified,
    call ∈ state.returned ∨ ∃ thread, state.callers thread = .notified call

/-- Every task in the queue that has been notified is still signalled. -/
def Signalled (state : LoopState Thread) : Prop :=
  ∀ call ∈ state.notified, .added call ∈ state.pendingTasks → state.counter ≠ 0

variable {state next : LoopState Thread} {event : LoopEvent Thread}

theorem callers_moveTo_iff (thread other : Thread) (point place : CallPoint) :
    (state.moveTo thread point).callers other = place ↔
      other = thread ∧ point = place ∨ other ≠ thread ∧ state.callers other = place := by
  change Function.update state.callers thread point other = place ↔ _
  rw [Function.update_apply]
  split
  · rename_i same
    simp [same]
  · rename_i different
    simp [different]

theorem callers_of_moveTo {thread other : Thread} {point place : CallPoint}
    (moved : (state.moveTo thread point).callers other = place)
    (distinct : point ≠ place) : state.callers other = place := by
  rcases (callers_moveTo_iff thread other point place).mp moved with ⟨_, same⟩ | ⟨_, kept⟩
  · exact absurd same distinct
  · exact kept

theorem moveTo_callers {thread other : Thread} {place : CallPoint} (point : CallPoint)
    (stays : state.callers other = place) (leaves : state.callers thread ≠ place) :
    (state.moveTo thread point).callers other = place := by
  apply (callers_moveTo_iff thread other point place).mpr
  have different : other ≠ thread := by
    intro same
    rw [same] at stays
    exact leaves stays
  exact .inr ⟨different, stays⟩

omit [DecidableEq Thread] in
theorem recorded_initial : Recorded (initial Thread) where
  notified_lt := by simp [initial]
  pushed_lt := by simp [initial]
  notified_mem := by simp [initial]
  returned_mem := by simp [initial]
  leaving := by simp [initial]

theorem Recorded.push (recorded : Recorded state) {thread : Thread}
    (outside : state.callers thread = .outside) (pendingTasks : List Task) :
    Recorded { state.moveTo thread (.pushed state.calls) with
      pendingTasks := pendingTasks
      calls := state.calls + 1 } where
  notified_lt call member := Nat.lt_succ_of_lt (recorded.notified_lt call member)
  pushed_lt other call place := by
    rcases (callers_moveTo_iff thread other _ _).mp place with ⟨_, same⟩ | ⟨_, kept⟩
    · cases same
      exact Nat.lt_succ_self state.calls
    · exact Nat.lt_succ_of_lt (recorded.pushed_lt other call kept)
  notified_mem other call place :=
    recorded.notified_mem other call (callers_of_moveTo place (by simp))
  returned_mem := recorded.returned_mem
  leaving call member := by
    rcases recorded.leaving call member with returned | ⟨other, place⟩
    · exact .inl returned
    · exact .inr ⟨other, moveTo_callers _ place (by simp [outside])⟩

theorem Recorded.wakeup (recorded : Recorded state) {thread : Thread} {call : Nat}
    (pushed : state.callers thread = .pushed call) (counter : Nat) :
    Recorded { state.moveTo thread (.notified call) with
      counter := counter
      notified := state.notified ++ [call] } where
  notified_lt number member := by
    rcases List.mem_append.mp member with older | latest
    · exact recorded.notified_lt number older
    · rw [List.mem_singleton.mp latest]
      exact recorded.pushed_lt thread call pushed
  pushed_lt other number place :=
    recorded.pushed_lt other number (callers_of_moveTo place (by simp))
  notified_mem other number place := by
    apply List.mem_append.mpr
    rcases (callers_moveTo_iff thread other _ _).mp place with ⟨_, same⟩ | ⟨_, kept⟩
    · cases same
      exact .inr (List.mem_singleton_self call)
    · exact .inl (recorded.notified_mem other number kept)
  returned_mem number member := List.mem_append_left _ (recorded.returned_mem number member)
  leaving number member := by
    rcases List.mem_append.mp member with older | latest
    · rcases recorded.leaving number older with returned | ⟨other, place⟩
      · exact .inl returned
      · exact .inr ⟨other, moveTo_callers _ place (by simp [pushed])⟩
    · rw [List.mem_singleton.mp latest]
      exact .inr ⟨thread, (callers_moveTo_iff thread thread _ _).mpr (.inl ⟨rfl, rfl⟩)⟩

theorem Recorded.leave (recorded : Recorded state) {thread : Thread} {call : Nat}
    (notified : state.callers thread = .notified call) :
    Recorded { state.moveTo thread .outside with
      returned := state.returned ++ [call] } where
  notified_lt := recorded.notified_lt
  pushed_lt other number place :=
    recorded.pushed_lt other number (callers_of_moveTo place (by simp))
  notified_mem other number place :=
    recorded.notified_mem other number (callers_of_moveTo place (by simp))
  returned_mem number member := by
    rcases List.mem_append.mp member with older | latest
    · exact recorded.returned_mem number older
    · rw [List.mem_singleton.mp latest]
      exact recorded.notified_mem thread call notified
  leaving number member := by
    rcases recorded.leaving number member with returned | ⟨other, place⟩
    · exact .inl (List.mem_append_left _ returned)
    · by_cases same : number = call
      · rw [same]
        exact .inl (List.mem_append_right _ (List.mem_singleton_self call))
      · have elsewhere : state.callers thread ≠ .notified number := by
          rw [notified]
          exact fun equal => same (CallPoint.notified.inj equal).symm
        exact .inr ⟨other, moveTo_callers _ place elsewhere⟩

theorem recorded_step (recorded : Recorded state) (step : LoopStep state event next) :
    Recorded next := by
  cases step with
  | swap | runTask | startDrain | read | endDrain | epollWait | epollReturn | addHandler =>
      exact ⟨recorded.notified_lt, recorded.pushed_lt, recorded.notified_mem,
        recorded.returned_mem, recorded.leaving⟩
  | push outside => exact recorded.push outside _
  | wakeup pushed => exact recorded.wakeup pushed _
  | leave notified => exact recorded.leave notified

theorem signalled_step (recorded : Recorded state) (signalled : Signalled state)
    (inTime : DrainsInTime state event) (step : LoopStep state event next) :
    Signalled next := by
  cases step with
  | swap =>
      intro call _ member
      cases member
  | runTask | startDrain | endDrain | epollWait | epollReturn => exact signalled
  | read another draining signal =>
      intro call notified member
      exact absurd member (inTime call notified)
  | addHandler queueing =>
      intro call notified member
      exact signalled call notified (by simpa using member)
  | push outside =>
      intro call notified member
      have older : call ≠ state.calls := Nat.ne_of_lt (recorded.notified_lt call notified)
      have same : Task.added call ∈ state.pendingTasks := by simpa [older] using member
      exact signalled call notified same
  | wakeup pushed => exact fun _ _ _ => wakeup_ne_zero state.counter
  | leave notified => exact signalled

/-! ## A drain that comes too late -/

/-- From inside the swapped queue, with nothing signalled, the loop can go to
sleep without anything else having happened. -/
theorem sleeps (tmpTasks : List Task) (state : LoopState Thread)
    (running : state.point = .running tmpTasks) (unsignalled : state.counter = 0) :
    ∃ events, (looping Thread).Run state events { state with point := .waiting } := by
  induction tmpTasks generalizing state with
  | nil => exact ⟨[.epollWait], .cons (.epollWait running) (.nil _)⟩
  | cons task tmpTasks induction =>
      rcases induction { state with point := .running tmpTasks } rfl unsignalled with
        ⟨events, run⟩
      by_cases drains : task = .handler .wakeUp
      · subst drains
        have finish : (looping Thread).Step { state with point := .draining tmpTasks }
            .endDrain { state with point := .running tmpTasks } :=
          .endDrain rfl unsignalled
        exact ⟨.startDrain :: .endDrain :: events, .cons (.startDrain running)
          (.cons finish run)⟩
      · exact ⟨.runTask :: events, .cons (.runTask running drains) run⟩

/-- A sleeping loop that is not signalled for a notified task has lost a wakeup
as soon as the call has returned. -/
theorem forgets (recorded : Recorded state) (waits : state.point = .waiting)
    (unsignalled : state.counter = 0) (call : Nat) (notified : call ∈ state.notified)
    (member : .added call ∈ state.pendingTasks) :
    ∃ events final, (looping Thread).Run state events final ∧ final.LostWakeup := by
  rcases recorded.leaving call notified with returned | ⟨thread, place⟩
  · exact ⟨[], state, .nil state, waits, unsignalled, call, returned, member⟩
  · refine ⟨[.leave thread], _, .cons (.leave place) (.nil _), waits, unsignalled, call, ?_,
      member⟩
    exact List.mem_append_right _ (List.mem_singleton_self call)

theorem recorded_reachable (reachable : (looping Thread).Reachable state) :
    Recorded state := by
  apply reachable.invariant Recorded
  · intro state isInitial
    subst isInitial
    exact recorded_initial
  · intro current label next recorded step
    exact recorded_step recorded step

theorem sleeps_after_read (step : LoopStep state .read next) :
    ∃ events, (looping Thread).Run next events
      { state with counter := 0, point := .waiting } := by
  cases step with
  | read another draining signal =>
      cases another with
      | false => exact sleeps _ _ rfl rfl
      | true =>
          rename_i tmpTasks
          have finish : (looping Thread).Step
              { state with counter := 0, point := .draining tmpTasks } .endDrain
              { state with counter := 0, point := .running tmpTasks } :=
            .endDrain rfl rfl
          rcases sleeps tmpTasks { state with counter := 0, point := .running tmpTasks }
            rfl rfl with ⟨events, run⟩
          exact ⟨.endDrain :: events, .cons finish run⟩

theorem loses_after_late_read (recorded : Recorded state)
    (late : ¬DrainsInTime state .read) (step : LoopStep state .read next) :
    ∃ events final, (looping Thread).Run next events final ∧ final.LostWakeup := by
  have found : ∃ call ∈ state.notified, .added call ∈ state.pendingTasks := by
    simpa [DrainsInTime] using late
  rcases found with ⟨call, notified, member⟩
  rcases sleeps_after_read step with ⟨events, run⟩
  have recordedAsleep := run.preserves Recorded (fun _ _ _ => recorded_step)
    (recorded_step recorded step)
  rcases forgets recordedAsleep rfl rfl call notified member with ⟨more, final, rest, lost⟩
  exact ⟨events ++ more, final, run.append rest, lost⟩

/-! ## No wakeup is lost exactly when every drain comes in time -/

omit [DecidableEq Thread] in
theorem not_lost_of_signalled (recorded : Recorded state) (signalled : Signalled state) :
    ¬state.LostWakeup := by
  intro lost
  rcases lost.forgotten with ⟨call, returned, member⟩
  exact signalled call (recorded.returned_mem call returned) member lost.unsignalled

theorem signalled_restricted
    (reachable : ((looping Thread).restrict DrainsInTime).Reachable state) :
    Recorded state ∧ Signalled state := by
  apply reachable.invariant fun state => Recorded state ∧ Signalled state
  · intro state isInitial
    subst isInitial
    exact ⟨recorded_initial, fun call notified => absurd notified (by simp [initial])⟩
  · rintro current label next ⟨recorded, signalled⟩ ⟨step, inTime⟩
    exact ⟨recorded_step recorded step, signalled_step recorded signalled inTime step⟩

/-- Runs that drain in time lose no wakeup, and whenever a drain has come too
late the run can go on to lose one. -/
theorem wakeups_kept (Thread : Type) [DecidableEq Thread] :
    (∀ state, ((looping Thread).restrict DrainsInTime).Reachable state →
      ¬state.LostWakeup) ∧
    ∀ state event next, (looping Thread).Reachable state → LoopStep state event next →
      ¬DrainsInTime state event →
      ∃ events final, (looping Thread).Run next events final ∧ final.LostWakeup := by
  constructor
  · intro state reachable
    have holds := signalled_restricted reachable
    exact not_lost_of_signalled holds.1 holds.2
  · intro state event next reachable step late
    have recorded := recorded_reachable reachable
    cases event with
    | read => exact loses_after_late_read recorded late step
    | _ => exact absurd trivial late

/-- Nobody is inside `addTask`, and every call has returned. -/
def betweenCalls (pendingTasks : List Task) (counter : Nat) (point : LoopPoint)
    (calls : Nat) : LoopState Thread where
  pendingTasks := pendingTasks
  counter := counter
  point := point
  callers := fun _ => .outside
  calls := calls
  notified := List.range calls
  returned := List.range calls

/-- One call of `addTask(cb, true)` that nothing interrupts. -/
theorem run_addTask (thread : Thread) (pendingTasks : List Task) (counter : Nat)
    (point : LoopPoint) (calls : Nat) :
    (looping Thread).Run (betweenCalls pendingTasks counter point calls)
      [.push thread, .wakeup thread, .leave thread]
      (betweenCalls (pendingTasks ++ [.added calls]) (wakeup counter) point (calls + 1)) := by
  have run : (looping Thread).Run (betweenCalls pendingTasks counter point calls)
      [.push thread, .wakeup thread, .leave thread] _ :=
    .cons (.push rfl) (.cons (.wakeup (Function.update_self thread _ _))
      (.cons (.leave (Function.update_self thread _ _)) (.nil _)))
  have outside : Function.update (fun _ : Thread => CallPoint.outside) thread .outside =
      fun _ => .outside :=
    Function.update_eq_self thread _
  simpa [betweenCalls, moveTo, outside, List.range_succ] using run

/-- The loop has swapped the queue out and is about to drain the eventfd when
another call pushes its task and writes to it. -/
theorem wakeup_lost : ∃ state, (looping Unit).Reachable state ∧ state.LostWakeup := by
  have start : (looping Unit).Reachable (betweenCalls [] 0 (.queueing []) 0) :=
    ⟨_, [], rfl, .nil _⟩
  have called := start.run (run_addTask () _ _ _ _)
  have waiting : (looping Unit).Reachable (betweenCalls [] 97 .waiting 1) :=
    called.run (.cons (.swap rfl) (.cons (.runTask rfl (by simp))
      (.cons (.epollWait rfl) (.nil _))))
  have swapped : (looping Unit).Reachable
      (betweenCalls [] 97 (.running [.handler .wakeUp]) 1) :=
    waiting.run (.cons (@LoopStep.epollReturn _ _ _ [.wakeUp] rfl (by decide) (by decide))
      (.cons (.addHandler rfl) (.cons (.swap rfl) (.nil _))))
  have calledAgain := swapped.run (run_addTask () _ _ _ _)
  have waitingAgain : (looping Unit).Reachable (betweenCalls [.added 1] 0 .waiting 2) :=
    calledAgain.run (.cons (.startDrain rfl) (.cons (.read false rfl (by decide))
      (.cons (.epollWait rfl) (.nil _))))
  exact ⟨_, waitingAgain, rfl, rfl, 1, by decide, by decide⟩

end NetRpc.EventLoop
