import Mathlib.Logic.Function.Basic
import NetRpc.Tcp.Sweeping

/-! # How long a channel lives

The callbacks of a call hold plain pointers to its channel, its client and its
connection. The channel owns the other two, and is itself owned by its caller
and by its timer. A timeout may take the last owner away while a handler of
the connection is still to be run in the same turn of the loop.

Every channel is taken to be used for one call, and every call to have a
descriptor number of its own.
-/

namespace NetRpc

inductive ChannelState
  | absent
  | alive
  | destroyed
deriving DecidableEq

inductive ClientTask
  /-- `Timer::onTimer` -/
  | onTimer
  /-- The callback of a connection: `onRead`, `onWrite` or what `connect` has registered. -/
  | handler (call : Nat)
deriving DecidableEq

structure ChannelLife where
  life : Nat → ChannelState := fun _ => .absent
  /-- The caller has a shared pointer to the channel. -/
  held : Nat → Bool := fun _ => false
  /-- The timer event of the call is pending, which has one as well. -/
  timed : Nat → Bool := fun _ => false
  /-- The descriptor is in the interest set. -/
  watched : Nat → Bool := fun _ => false
  point : TurnPoint := .draining
  tmpTasks : List ClientTask := []
  pendingTasks : List ClientTask := []
  /-- A handler has been run for a connection that is gone. -/
  undefined : Bool := false

inductive ChannelEvent
  /-- `CallMethod` up to `connect`, which may have to wait for the descriptor. -/
  | start (call : Nat) (inProgress : Bool)
  /-- The caller gives up its last shared pointer. -/
  | release (call : Nat)
  | swap
  /-- The next task is a handler. It may be the last to add or to delete its descriptor. -/
  | run (watches : Option Bool)
  /-- The next task is `onTimer`, with the calls whose timers are due. -/
  | onTimer (due : List Nat)
  | epollWait
  | epollReturn (ready : List ClientTask)
deriving DecidableEq

namespace ChannelLife

/-- The destructors. Closing takes the descriptor out of the interest set. -/
def destroy (state : ChannelLife) (gone : Nat → Bool) : ChannelLife :=
  { state with
    life := fun call => if gone call then .destroyed else state.life call
    watched := fun call => !gone call && state.watched call }

/-- The timer events that are due drop their channels when `onTimer` returns. -/
def expire (state : ChannelLife) (due : List Nat) : ChannelLife :=
  { state.destroy fun call => decide (call ∈ due) && !state.held call with
    timed := fun call => !decide (call ∈ due) && state.timed call }

def giveUp (state : ChannelLife) (call : Nat) : ChannelLife :=
  { state.destroy fun other => decide (other = call) && !state.timed call with
    held := Function.update state.held call false }

def handle (state : ChannelLife) (call : Nat) (watches : Option Bool) : ChannelLife :=
  match state.life call with
  | .alive =>
      { state with
        watched := Function.update state.watched call (watches.getD (state.watched call)) }
  | .absent => state
  | .destroyed => { state with undefined := true }

/-- What `epoll_wait` can report. The timer has its own descriptor. -/
def reports (state : ChannelLife) : ClientTask → Bool
  | .onTimer => true
  | .handler call => state.watched call

def step (state : ChannelLife) : ChannelEvent → Option ChannelLife
  | .start call inProgress =>
      if state.life call = .absent ∧ state.point = .draining then
        some { state with
          life := Function.update state.life call .alive
          held := Function.update state.held call true
          timed := Function.update state.timed call true
          watched := Function.update state.watched call inProgress }
      else none
  | .release call =>
      if state.held call ∧ state.point = .draining then some (state.giveUp call) else none
  | .swap =>
      if state.point = .dispatching then
        some { state with point := .draining, tmpTasks := state.pendingTasks, pendingTasks := [] }
      else none
  | .run watches =>
      match state.point, state.tmpTasks with
      | .draining, .handler call :: tmpTasks =>
          some (({ state with tmpTasks } : ChannelLife).handle call watches)
      | _, _ => none
  | .onTimer due =>
      match state.point, state.tmpTasks with
      | .draining, .onTimer :: tmpTasks =>
          if ∀ call ∈ due, state.timed call then
            some (({ state with tmpTasks } : ChannelLife).expire due)
          else none
      | _, _ => none
  | .epollWait =>
      if state.point = .draining ∧ state.tmpTasks = [] then
        some { state with point := .waiting }
      else none
  | .epollReturn ready =>
      if state.point = .waiting ∧ ∀ task ∈ ready, state.reports task then
        some { state with point := .dispatching, pendingTasks := state.pendingTasks ++ ready }
      else none

def system : Transition.System ChannelLife ChannelEvent where
  Initial state := state = {}
  Step state event next := state.undefined = false ∧ state.step event = some next

/-- No handler of a connection that is gone has been run or is to be run. -/
structure Safe (state : ChannelLife) : Prop where
  defined : state.undefined = false
  live : ∀ call, state.life call = .destroyed →
    .handler call ∉ state.tmpTasks ∧ .handler call ∉ state.pendingTasks

/-- A call whose last owner goes has no handler to be run in this turn. -/
def Spares (state : ChannelLife) : ChannelEvent → Prop
  | .onTimer due => ∀ call ∈ due, state.held call = false → .handler call ∉ state.tmpTasks
  | .release call => state.timed call = false → .handler call ∉ state.tmpTasks
  | _ => True

structure Consistent (state : ChannelLife) : Prop where
  owned : ∀ call, state.held call ∨ state.timed call → state.life call = .alive
  watched : ∀ call, state.watched call → state.life call = .alive
  tmp : ∀ call, .handler call ∈ state.tmpTasks → state.life call ≠ .absent
  pending : ∀ call, .handler call ∈ state.pendingTasks → state.life call = .alive
  idle : state.point ≠ .dispatching → state.pendingTasks = []
  drained : state.point ≠ .draining → state.tmpTasks = []

variable {state next : ChannelLife} {event : ChannelEvent}

theorem step_run {watches : Option Bool} (stepped : state.step (.run watches) = some next) :
    ∃ call tmpTasks, state.point = .draining ∧ state.tmpTasks = .handler call :: tmpTasks ∧
      next = ({ state with tmpTasks } : ChannelLife).handle call watches := by
  rw [step] at stepped
  split at stepped
  · next call tmpTasks draining queue =>
      exact ⟨call, tmpTasks, draining, queue, (Option.some.inj stepped).symm⟩
  · cases stepped

theorem step_onTimer {due : List Nat} (stepped : state.step (.onTimer due) = some next) :
    ∃ tmpTasks, state.point = .draining ∧ state.tmpTasks = .onTimer :: tmpTasks ∧
      (∀ call ∈ due, state.timed call) ∧
      next = ({ state with tmpTasks } : ChannelLife).expire due := by
  rw [step] at stepped
  split at stepped
  · next tmpTasks draining queue =>
      rcases Option.ite_none_right_eq_some.mp stepped with ⟨pending, same⟩
      exact ⟨tmpTasks, draining, queue, pending, (Option.some.inj same).symm⟩
  · cases stepped

theorem Consistent.initial : ({} : ChannelLife).Consistent := by
  constructor <;> simp

theorem Consistent.step (consistent : state.Consistent) (stepped : state.step event = some next) :
    next.Consistent := by
  rcases consistent with ⟨owned, watched, tmp, pending, idle, drained⟩
  cases event with
  | start call inProgress =>
      rcases Option.ite_none_right_eq_some.mp stepped with ⟨⟨absent, draining⟩, same⟩
      cases same
      constructor <;> grind
  | release call =>
      rcases Option.ite_none_right_eq_some.mp stepped with ⟨⟨held, draining⟩, same⟩
      cases same
      simp only [giveUp, destroy]
      constructor <;> grind
  | swap =>
      rcases Option.ite_none_right_eq_some.mp stepped with ⟨dispatching, same⟩
      cases same
      constructor <;> grind
  | run watches =>
      rcases step_run stepped with ⟨call, tmpTasks, draining, queue, rfl⟩
      simp only [handle]
      split <;> constructor <;> grind
  | onTimer due =>
      rcases step_onTimer stepped with ⟨tmpTasks, draining, queue, timed, rfl⟩
      simp only [expire, destroy]
      constructor <;> grind
  | epollWait =>
      rcases Option.ite_none_right_eq_some.mp stepped with ⟨⟨draining, done⟩, same⟩
      cases same
      constructor <;> grind
  | epollReturn ready =>
      rcases Option.ite_none_right_eq_some.mp stepped with ⟨⟨waiting, reported⟩, same⟩
      cases same
      have added : ∀ call, .handler call ∈ ready → state.watched call :=
        fun call member => reported (.handler call) member
      constructor <;> grind

theorem Safe.step_iff (safe : state.Safe) (consistent : state.Consistent)
    (stepped : state.step event = some next) : next.Safe ↔ state.Spares event := by
  rcases consistent with ⟨owned, watched, tmp, pending, idle, drained⟩
  rcases safe with ⟨defined, live⟩
  cases event with
  | start call inProgress =>
      rcases Option.ite_none_right_eq_some.mp stepped with ⟨⟨absent, draining⟩, same⟩
      cases same
      refine iff_of_true ⟨defined, ?_⟩ trivial
      grind
  | release call =>
      rcases Option.ite_none_right_eq_some.mp stepped with ⟨⟨held, draining⟩, same⟩
      cases same
      simp only [Spares]
      constructor
      · intro after untimed
        have gone := after.live call
        simp only [giveUp, destroy] at gone
        grind
      · intro spares
        refine ⟨defined, ?_⟩
        simp only [giveUp, destroy]
        grind
  | swap =>
      rcases Option.ite_none_right_eq_some.mp stepped with ⟨dispatching, same⟩
      cases same
      refine iff_of_true ⟨defined, ?_⟩ trivial
      grind
  | run watches =>
      rcases step_run stepped with ⟨call, tmpTasks, draining, queue, rfl⟩
      refine iff_of_true ?_ trivial
      simp only [handle]
      split
      · refine ⟨defined, ?_⟩
        grind
      · refine ⟨defined, ?_⟩
        grind
      · grind
  | onTimer due =>
      rcases step_onTimer stepped with ⟨tmpTasks, draining, queue, timed, rfl⟩
      simp only [Spares, queue]
      constructor
      · intro after call isDue unheld
        have gone := after.live call
        simp only [expire, destroy] at gone
        grind
      · intro spares
        refine ⟨defined, ?_⟩
        simp only [expire, destroy]
        grind
  | epollWait =>
      rcases Option.ite_none_right_eq_some.mp stepped with ⟨⟨draining, done⟩, same⟩
      cases same
      refine iff_of_true ⟨defined, ?_⟩ trivial
      grind
  | epollReturn ready =>
      rcases Option.ite_none_right_eq_some.mp stepped with ⟨⟨waiting, reported⟩, same⟩
      cases same
      have added : ∀ call, .handler call ∈ ready → state.watched call :=
        fun call member => reported (.handler call) member
      refine iff_of_true ⟨defined, ?_⟩ trivial
      grind

/-- No handler of a destroyed connection is run or left in the queue exactly as long as
no timeout, and no caller, takes the last owner from a call that still has a handler
to be run in the same turn. -/
theorem safe_iff_spares (events : List ChannelEvent) :
    system.Always Safe {} events ↔
      system.EachStep (fun current event _ => current.Spares event) {} events := by
  have kept : ∀ (current : ChannelLife) event next, current.Consistent →
      system.Step current event next → next.Consistent := by
    intro current event next consistent step
    exact consistent.step step.2
  have keeps_iff : ∀ (current : ChannelLife) event next, current.Consistent →
      current.Safe → system.Step current event next →
      (next.Safe ↔ current.Spares event) := by
    intro current event next consistent safe step
    exact safe.step_iff consistent step.2
  have start : ({} : ChannelLife).Safe := by
    constructor <;> simp
  exact Transition.System.always_iff kept keeps_iff Consistent.initial start events

end ChannelLife

end NetRpc
