import Mathlib.Data.List.Basic
import Mathlib.Logic.Function.Basic
import NetRpc.Foundation.Transition

/-! # Sweeping closed connections

The tasks in the queue of an event loop hold plain pointers to connections.
Another thread, that of the server, looks at its connections one by one and
destroys those that it finds closed. A connection can be closed by one of its
tasks while another is still to be run in the same turn of the loop.

The services are taken to answer before they return.
-/

namespace NetRpc

inductive Life
  | absent
  /-- In `m_client`, and not closed. -/
  | opened
  | closed
  /-- No longer in `m_client`. -/
  | freed
deriving DecidableEq

inductive TurnPoint
  /-- Behind `epoll_wait`, in front of the next swap. -/
  | dispatching
  | draining
  /-- Inside `epoll_wait`. -/
  | waiting
deriving DecidableEq

/-- The handlers in the queues of one IO thread, by their connections. -/
structure HandlerQueue where
  point : TurnPoint := .dispatching
  tmpTasks : List Nat := []
  pendingTasks : List Nat := []

/-- What `epoll_wait` reports for a connection. -/
structure Readiness where
  connection : Nat
  epollIn : Bool
  epollOut : Bool
deriving DecidableEq

def Readiness.handlers (readiness : Readiness) : List Nat :=
  (if readiness.epollIn then [readiness.connection] else []) ++
    if readiness.epollOut then [readiness.connection] else []

inductive HandlerEnd
  | unchanged
  /-- The last call is `addEpollEvent`, in `listenWrite` or in `onWrite`. -/
  | listens
  /-- `onRead` finds that the peer is gone, and calls `clear`. -/
  | peerClosed
deriving DecidableEq

structure Sweeping where
  life : Nat → Life := fun _ => .absent
  /-- The IO thread of a connection. -/
  home : Nat → Nat := fun _ => 0
  /-- The task that registers the connection is in the queue. -/
  registering : Nat → Bool := fun _ => false
  /-- The descriptor is in the interest set. -/
  watched : Nat → Bool := fun _ => false
  queues : Nat → HandlerQueue := fun _ => {}
  /-- A handler has been run for a connection that is gone. -/
  undefined : Bool := false

inductive SweepingEvent
  /-- `onAccept` makes the connection for this IO thread. -/
  | accept (connection i : Nat)
  | register (connection : Nat)
  | swap (i : Nat)
  | run (i : Nat) (ended : HandlerEnd)
  | epollWait (i : Nat)
  | epollReturn (i : Nat) (ready : List Readiness)
  /-- An error is reported, and the descriptor is taken out. -/
  | error (connection : Nat)
  /-- `ClearClientTimerFunc` comes to the connection in `m_client`. -/
  | visit (connection : Nat)
deriving DecidableEq

namespace Sweeping

def setQueue (state : Sweeping) (i : Nat) (queue : HandlerQueue) : Sweeping :=
  { state with queues := Function.update state.queues i queue }

def setWatched (state : Sweeping) (connection : Nat) (watched : Bool) : Sweeping :=
  { state with watched := Function.update state.watched connection watched }

/-- `clear`, as far as other threads see it. -/
def close (state : Sweeping) (connection : Nat) : Sweeping :=
  { state with
    life := Function.update state.life connection .closed
    watched := Function.update state.watched connection false }

def handler (state : Sweeping) (connection : Nat) (ended : HandlerEnd) : Sweeping :=
  match state.life connection with
  | .opened =>
      match ended with
      | .unchanged => state
      | .listens => state.setWatched connection true
      | .peerClosed => state.close connection
  -- `onRead` and `onWrite` return at once.
  | .closed | .absent => state
  | .freed => { state with undefined := true }

def step (state : Sweeping) : SweepingEvent → Option Sweeping
  | .accept connection i =>
      if state.life connection = .absent then
        some { state with
          life := Function.update state.life connection .opened
          home := Function.update state.home connection i
          registering := Function.update state.registering connection true }
      else none
  | .register connection =>
      if state.registering connection ∧
          (state.queues (state.home connection)).point = .draining then
        some { state with
          registering := Function.update state.registering connection false
          watched := Function.update state.watched connection true }
      else none
  | .swap i =>
      if (state.queues i).point = .dispatching then
        some (state.setQueue i ⟨.draining, (state.queues i).pendingTasks, []⟩)
      else none
  | .run i ended =>
      match state.queues i with
      | ⟨.draining, connection :: tmpTasks, pendingTasks⟩ =>
          some ((state.setQueue i ⟨.draining, tmpTasks, pendingTasks⟩).handler connection ended)
      | _ => none
  | .epollWait i =>
      match state.queues i with
      | ⟨.draining, [], pendingTasks⟩ => some (state.setQueue i ⟨.waiting, [], pendingTasks⟩)
      | _ => none
  | .epollReturn i ready =>
      if (state.queues i).point = .waiting ∧
          ∀ readiness ∈ ready, state.watched readiness.connection ∧
            state.home readiness.connection = i then
        some (state.setQueue i ⟨.dispatching, (state.queues i).tmpTasks,
          (state.queues i).pendingTasks ++ ready.flatMap Readiness.handlers⟩)
      else none
  | .error connection =>
      if (state.queues (state.home connection)).point = .dispatching then
        some (state.setWatched connection false)
      else none
  | .visit connection =>
      match state.life connection with
      | .opened => some state
      | .closed => some { state with life := Function.update state.life connection .freed }
      | .absent | .freed => none

end Sweeping

/-- The IO threads and the thread of the server, in any order of their steps. -/
def sweepingSystem : Transition.System Sweeping SweepingEvent where
  Initial state := state = {}
  Step state event next := state.undefined = false ∧ state.step event = some next

namespace Sweeping

/-- No handler of a connection that is gone has been run or is to be run. -/
structure Safe (state : Sweeping) : Prop where
  defined : state.undefined = false
  live : ∀ connection i, state.life connection = .freed →
    connection ∉ (state.queues i).tmpTasks ∧ connection ∉ (state.queues i).pendingTasks

/-- No connection is found closed with a handler to be run in the turn of its loop. -/
def Clears (state : Sweeping) (event : SweepingEvent) : Prop :=
  ∀ connection, event = .visit connection → state.life connection = .closed →
    connection ∉ (state.queues (state.home connection)).tmpTasks

/-- Nothing in an IO thread leads to the connection. -/
structure Released (state : Sweeping) (connection : Nat) : Prop where
  unqueued : ∀ i, connection ∉ (state.queues i).tmpTasks
  unpended : ∀ i, connection ∉ (state.queues i).pendingTasks
  unwatched : state.watched connection = false
  unregistered : state.registering connection = false

structure Consistent (state : Sweeping) : Prop where
  home : ∀ connection i, connection ∈ (state.queues i).tmpTasks → state.home connection = i
  present : ∀ connection i, connection ∈ (state.queues i).tmpTasks →
    state.life connection ≠ .absent
  pending : ∀ connection i, connection ∈ (state.queues i).pendingTasks →
    state.home connection = i ∧ state.life connection = .opened
  watched : ∀ connection, state.watched connection → state.life connection = .opened
  registering : ∀ connection, state.registering connection →
    state.life connection = .opened ∧
      ∀ i, connection ∉ (state.queues i).tmpTasks ∧ connection ∉ (state.queues i).pendingTasks
  unwatched : ∀ connection, state.registering connection → state.watched connection = false
  idle : ∀ i, (state.queues i).point ≠ .dispatching → (state.queues i).pendingTasks = []
  drained : ∀ i, (state.queues i).point ≠ .draining → (state.queues i).tmpTasks = []

variable {state next : Sweeping} {event : SweepingEvent}

theorem step_run {i : Nat} {ended : HandlerEnd} (stepped : state.step (.run i ended) = some next) :
    ∃ connection tmpTasks pendingTasks,
      state.queues i = ⟨.draining, connection :: tmpTasks, pendingTasks⟩ ∧
      next = (state.setQueue i ⟨.draining, tmpTasks, pendingTasks⟩).handler connection ended := by
  rw [step] at stepped
  split at stepped
  · next connection tmpTasks pendingTasks found =>
      exact ⟨connection, tmpTasks, pendingTasks, found, (Option.some.inj stepped).symm⟩
  · cases stepped

theorem step_epollWait {i : Nat} (stepped : state.step (.epollWait i) = some next) :
    ∃ pendingTasks, state.queues i = ⟨.draining, [], pendingTasks⟩ ∧
      next = state.setQueue i ⟨.waiting, [], pendingTasks⟩ := by
  rw [step] at stepped
  split at stepped
  · next pendingTasks found =>
      exact ⟨pendingTasks, found, (Option.some.inj stepped).symm⟩
  · cases stepped

theorem step_visit {connection : Nat} (stepped : state.step (.visit connection) = some next) :
    state.life connection = .opened ∧ next = state ∨
      state.life connection = .closed ∧
        next = { state with life := Function.update state.life connection .freed } := by
  rw [step] at stepped
  split at stepped
  · next isOpen => exact .inl ⟨isOpen, (Option.some.inj stepped).symm⟩
  · next closed => exact .inr ⟨closed, (Option.some.inj stepped).symm⟩
  · cases stepped
  · cases stepped

theorem Consistent.initial : ({} : Sweeping).Consistent := by
  constructor <;> grind

@[grind =] theorem queues_setQueue (state : Sweeping) (i j : Nat) (queue : HandlerQueue) :
    (state.setQueue i queue).queues j = if j = i then queue else state.queues j := by
  simp only [setQueue, Function.update_apply]

@[grind =] theorem life_setQueue (state : Sweeping) (i connection : Nat)
    (queue : HandlerQueue) :
    (state.setQueue i queue).life connection = state.life connection := rfl

@[grind =] theorem home_setQueue (state : Sweeping) (i connection : Nat)
    (queue : HandlerQueue) :
    (state.setQueue i queue).home connection = state.home connection := rfl

@[grind =] theorem watched_setQueue (state : Sweeping) (i connection : Nat)
    (queue : HandlerQueue) :
    (state.setQueue i queue).watched connection = state.watched connection := rfl

@[grind =] theorem registering_setQueue (state : Sweeping) (i connection : Nat)
    (queue : HandlerQueue) :
    (state.setQueue i queue).registering connection = state.registering connection := rfl

theorem mem_handlers {connection : Nat} {ready : List Readiness}
    (member : connection ∈ ready.flatMap Readiness.handlers) :
    ∃ readiness ∈ ready, readiness.connection = connection := by
  rcases List.mem_flatMap.mp member with ⟨readiness, within, among⟩
  simp only [Readiness.handlers, List.mem_append, List.mem_ite_nil_right,
    List.mem_singleton] at among
  rcases among with ⟨_, same⟩ | ⟨_, same⟩
  · exact ⟨readiness, within, same.symm⟩
  · exact ⟨readiness, within, same.symm⟩

/-- Taking a queue's tasks from where they are consistent keeps the state consistent. -/
theorem Consistent.setQueue (consistent : state.Consistent) (i : Nat) (queue : HandlerQueue)
    (inTmp : ∀ connection ∈ queue.tmpTasks,
      connection ∈ (state.queues i).tmpTasks ∨ connection ∈ (state.queues i).pendingTasks)
    (inPending : ∀ connection ∈ queue.pendingTasks,
      connection ∈ (state.queues i).pendingTasks ∨
        state.home connection = i ∧ state.watched connection)
    (idle : queue.point ≠ .dispatching → queue.pendingTasks = [])
    (drained : queue.point ≠ .draining → queue.tmpTasks = []) :
    (state.setQueue i queue).Consistent := by
  rcases consistent with ⟨home, present, pending, inSet, registering, unwatched, idle, drained⟩
  constructor <;> grind

theorem Consistent.close (consistent : state.Consistent) {connection : Nat}
    (registered : state.registering connection = false)
    (unpended : ∀ i, connection ∉ (state.queues i).pendingTasks) :
    (state.close connection).Consistent := by
  rcases consistent with ⟨home, present, pending, inSet, registering, unwatched, idle, drained⟩
  simp only [Sweeping.close]
  constructor <;> grind

theorem Consistent.setWatched (consistent : state.Consistent) {connection : Nat}
    {watched : Bool} (isOpen : watched → state.life connection = .opened)
    (registered : watched → state.registering connection = false) :
    (state.setWatched connection watched).Consistent := by
  rcases consistent with ⟨home, present, pending, inSet, registering, unwatched, idle, drained⟩
  simp only [Sweeping.setWatched]
  constructor <;> grind

/-- The handlers of a connection that is reported again are not yet in the queue. -/
theorem Consistent.handler (consistent : state.Consistent) {connection : Nat}
    (registered : state.registering connection = false)
    (unpended : ∀ i, connection ∉ (state.queues i).pendingTasks) (ended : HandlerEnd) :
    (state.handler connection ended).Consistent := by
  cases alive : state.life connection with
  | opened =>
      cases ended with
      | unchanged => simpa only [Sweeping.handler, alive] using consistent
      | listens =>
          have watching : (state.setWatched connection true).Consistent :=
            consistent.setWatched (fun _ => alive) (fun _ => registered)
          simpa only [Sweeping.handler, alive] using watching
      | peerClosed =>
          have closed : (state.close connection).Consistent :=
            consistent.close registered unpended
          simpa only [Sweeping.handler, alive] using closed
  | closed => simpa only [Sweeping.handler, alive] using consistent
  | absent => simpa only [Sweeping.handler, alive] using consistent
  | freed =>
      rcases consistent with ⟨home, present, pending, inSet, registering, unwatched, idle, drained⟩
      simp only [Sweeping.handler, alive]
      constructor <;> assumption

theorem Consistent.step (consistent : state.Consistent) (stepped : state.step event = some next) :
    next.Consistent := by
  cases event with
  | accept connection i =>
      simp only [Sweeping.step, Option.ite_none_right_eq_some, Option.some.injEq] at stepped
      rcases stepped with ⟨absent, rfl⟩
      rcases consistent with ⟨home, present, pending, inSet, registering, unwatched, idle, drained⟩
      constructor <;> grind
  | register connection =>
      simp only [Sweeping.step, Option.ite_none_right_eq_some, Option.some.injEq] at stepped
      rcases stepped with ⟨⟨queued, draining⟩, rfl⟩
      rcases consistent with ⟨home, present, pending, inSet, registering, unwatched, idle, drained⟩
      constructor <;> grind
  | swap i =>
      simp only [Sweeping.step, Option.ite_none_right_eq_some, Option.some.injEq] at stepped
      rcases stepped with ⟨dispatching, rfl⟩
      apply consistent.setQueue <;> grind
  | run i ended =>
      rcases step_run stepped with ⟨connection, tmpTasks, pendingTasks, found, rfl⟩
      have home := consistent.home connection i
      have registered := consistent.registering connection
      have idle := consistent.idle i
      have pending := consistent.pending connection
      apply Consistent.handler
      · apply consistent.setQueue <;> grind
      · grind
      · grind
  | epollWait i =>
      rcases step_epollWait stepped with ⟨pendingTasks, found, rfl⟩
      have idle := consistent.idle i
      apply consistent.setQueue <;> grind
  | epollReturn i ready =>
      simp only [Sweeping.step, Option.ite_none_right_eq_some, Option.some.injEq] at stepped
      rcases stepped with ⟨⟨waiting, reported⟩, rfl⟩
      have := consistent.drained i
      apply consistent.setQueue
      · grind
      · intro connection member
        rcases List.mem_append.mp member with earlier | added
        · exact .inl earlier
        · rcases mem_handlers added with ⟨readiness, within, same⟩
          have known := reported readiness within
          grind
      · grind
      · grind
  | error connection =>
      simp only [Sweeping.step, Option.ite_none_right_eq_some, Option.some.injEq] at stepped
      rcases stepped with ⟨dispatching, rfl⟩
      exact consistent.setWatched nofun nofun
  | visit connection =>
      rcases step_visit stepped with ⟨_, rfl⟩ | ⟨closed, rfl⟩
      · exact consistent
      · rcases consistent with
          ⟨home, present, pending, inSet, registering, unwatched, idle, drained⟩
        constructor <;> grind

theorem kept_consistent (current : Sweeping) (event : SweepingEvent) (next : Sweeping)
    (consistent : current.Consistent) (step : sweepingSystem.Step current event next) :
    next.Consistent :=
  consistent.step step.2

theorem Safe.setQueue (safe : state.Safe) (i : Nat) (queue : HandlerQueue)
    (inTmp : ∀ connection ∈ queue.tmpTasks, state.life connection ≠ .freed)
    (inPending : ∀ connection ∈ queue.pendingTasks, state.life connection ≠ .freed) :
    (state.setQueue i queue).Safe := by
  rcases safe with ⟨defined, live⟩
  constructor
  · exact defined
  · grind

theorem Safe.handler (safe : state.Safe) {connection : Nat}
    (alive : state.life connection ≠ .freed) (ended : HandlerEnd) :
    (state.handler connection ended).Safe := by
  rcases safe with ⟨defined, live⟩
  simp only [Sweeping.handler, close, setWatched]
  split
  · cases ended with
    | unchanged => exact ⟨defined, live⟩
    | listens => exact ⟨defined, live⟩
    | peerClosed =>
        constructor
        · exact defined
        · grind
  · exact ⟨defined, live⟩
  · exact ⟨defined, live⟩
  · contradiction

theorem Safe.step (safe : state.Safe) (consistent : state.Consistent)
    (clears : state.Clears event) (stepped : state.step event = some next) : next.Safe := by
  have live := safe.live
  cases event with
  | accept connection i =>
      simp only [Sweeping.step, Option.ite_none_right_eq_some, Option.some.injEq] at stepped
      rcases stepped with ⟨absent, rfl⟩
      constructor
      · exact safe.defined
      · grind
  | register connection =>
      simp only [Sweeping.step, Option.ite_none_right_eq_some, Option.some.injEq] at stepped
      rcases stepped with ⟨⟨queued, draining⟩, rfl⟩
      exact ⟨safe.defined, live⟩
  | swap i =>
      simp only [Sweeping.step, Option.ite_none_right_eq_some, Option.some.injEq] at stepped
      rcases stepped with ⟨dispatching, rfl⟩
      apply safe.setQueue <;> grind
  | run i ended =>
      rcases step_run stepped with ⟨connection, tmpTasks, pendingTasks, found, rfl⟩
      apply Safe.handler
      · apply safe.setQueue <;> grind
      · grind
  | epollWait i =>
      rcases step_epollWait stepped with ⟨pendingTasks, found, rfl⟩
      apply safe.setQueue <;> grind
  | epollReturn i ready =>
      simp only [Sweeping.step, Option.ite_none_right_eq_some, Option.some.injEq] at stepped
      rcases stepped with ⟨⟨waiting, reported⟩, rfl⟩
      apply safe.setQueue
      · grind
      · intro connection member
        rcases List.mem_append.mp member with earlier | added
        · grind
        · rcases mem_handlers added with ⟨readiness, within, rfl⟩
          have isOpen := consistent.watched _ (reported readiness within).1
          grind
  | error connection =>
      simp only [Sweeping.step, Option.ite_none_right_eq_some, Option.some.injEq] at stepped
      rcases stepped with ⟨dispatching, rfl⟩
      exact ⟨safe.defined, live⟩
  | visit connection =>
      rcases step_visit stepped with ⟨_, rfl⟩ | ⟨closed, rfl⟩
      · exact safe
      -- What is pending belongs to open connections, and the turn to their home.
      · have home := consistent.home connection
        have pending := consistent.pending connection
        have unqueued := clears connection rfl closed
        constructor
        · exact safe.defined
        · grind

theorem clears_of_safe (after : next.Safe) (stepped : state.step event = some next) :
    state.Clears event := by
  intro connection visits closed
  subst visits
  rcases step_visit stepped with ⟨isOpen, _⟩ | ⟨_, rfl⟩
  · rw [closed] at isOpen
    cases isOpen
  · have freed : Function.update state.life connection .freed connection = .freed :=
      Function.update_self ..
    exact (after.live connection (state.home connection) freed).1

/-- No loop runs or holds a handler of a destroyed connection exactly as long as the
server comes to no connection between its end and the end of that turn of its loop. -/
theorem safe_iff_clears (events : List SweepingEvent) :
    sweepingSystem.Always Safe {} events ↔
      sweepingSystem.EachStep (fun current event _ => current.Clears event) {} events := by
  have keeps_iff : ∀ (current : Sweeping) event next, current.Consistent → current.Safe →
      sweepingSystem.Step current event next → (next.Safe ↔ current.Clears event) := by
    intro current event next consistent safe step
    constructor
    · intro after
      exact clears_of_safe after step.2
    · intro clears
      exact safe.step consistent clears step.2
  have start : ({} : Sweeping).Safe := ⟨rfl, by grind⟩
  exact Transition.System.always_iff kept_consistent keeps_iff Consistent.initial start events

/-- Closed or destroyed, which no step takes back. -/
def Gone (state : Sweeping) (connection : Nat) : Prop :=
  state.life connection = .closed ∨ state.life connection = .freed

/-- What a handler leaves unchanged. -/
theorem handler_frame (state : Sweeping) (connection : Nat) (ended : HandlerEnd) :
    (state.handler connection ended).queues = state.queues ∧
      (state.handler connection ended).home = state.home ∧
      (state.handler connection ended).registering = state.registering := by
  simp only [handler, close, setWatched]
  split
  · cases ended <;> exact ⟨rfl, rfl, rfl⟩
  · exact ⟨rfl, rfl, rfl⟩
  · exact ⟨rfl, rfl, rfl⟩
  · exact ⟨rfl, rfl, rfl⟩

theorem Gone.handler {connection : Nat} (gone : state.Gone connection) (other : Nat)
    (ended : HandlerEnd) :
    (state.handler other ended).life connection = state.life connection ∧
      (state.handler other ended).watched connection = state.watched connection := by
  simp only [Gone] at gone
  simp only [Sweeping.handler, close, setWatched]
  split
  · cases ended with
    | unchanged => exact ⟨rfl, rfl⟩
    | listens => grind
    | peerClosed => grind
  · exact ⟨rfl, rfl⟩
  · exact ⟨rfl, rfl⟩
  · exact ⟨rfl, rfl⟩

theorem Gone.step {connection : Nat} (gone : state.Gone connection)
    (stepped : state.step event = some next) :
    next.Gone connection ∧ next.home connection = state.home connection := by
  cases event with
  | run i ended =>
      rcases step_run stepped with ⟨other, tmpTasks, pendingTasks, found, rfl⟩
      have queued : (state.setQueue i ⟨.draining, tmpTasks, pendingTasks⟩).Gone connection := gone
      rw [(handler_frame _ other ended).2.1]
      simp only [Gone, (queued.handler other ended).1]
      exact ⟨gone, rfl⟩
  | epollWait i =>
      rcases step_epollWait stepped with ⟨_, _, rfl⟩
      exact ⟨gone, rfl⟩
  | visit other =>
      rcases step_visit stepped with ⟨_, rfl⟩ | ⟨closed, rfl⟩
      · exact ⟨gone, rfl⟩
      · simp only [Gone] at gone ⊢
        grind
  | accept other i =>
      simp only [Sweeping.step, Option.ite_none_right_eq_some, Option.some.injEq] at stepped
      rcases stepped with ⟨absent, rfl⟩
      simp only [Gone] at gone ⊢
      grind
  | register | swap | epollReturn | error =>
      simp only [Sweeping.step, Option.ite_none_right_eq_some, Option.some.injEq] at stepped
      rcases stepped with ⟨_, rfl⟩
      exact ⟨gone, rfl⟩

theorem Released.setQueue {connection : Nat} (released : state.Released connection) (i : Nat)
    (queue : HandlerQueue) (inTmp : connection ∉ queue.tmpTasks)
    (inPending : connection ∉ queue.pendingTasks) :
    (state.setQueue i queue).Released connection := by
  rcases released with ⟨unqueued, unpended, unwatched, unregistered⟩
  constructor
  · grind
  · grind
  · exact unwatched
  · exact unregistered

theorem Released.handler {connection : Nat} (released : state.Released connection)
    (gone : state.Gone connection) (other : Nat) (ended : HandlerEnd) :
    (state.handler other ended).Released connection := by
  rcases released with ⟨unqueued, unpended, unwatched, unregistered⟩
  rcases handler_frame state other ended with ⟨sameQueues, _, sameRegistering⟩
  have sameWatched := (gone.handler other ended).2
  constructor
  · rwa [sameQueues]
  · rwa [sameQueues]
  · rwa [sameWatched]
  · rwa [sameRegistering]

theorem Released.step {connection : Nat} (released : state.Released connection)
    (gone : state.Gone connection) (stepped : state.step event = some next) :
    next.Released connection := by
  have parts := released
  rcases parts with ⟨unqueued, unpended, unwatched, unregistered⟩
  cases event with
  | accept other i =>
      simp only [Sweeping.step, Option.ite_none_right_eq_some, Option.some.injEq] at stepped
      rcases stepped with ⟨absent, rfl⟩
      simp only [Gone] at gone
      constructor <;> grind
  | register other =>
      simp only [Sweeping.step, Option.ite_none_right_eq_some, Option.some.injEq] at stepped
      rcases stepped with ⟨⟨queued, draining⟩, rfl⟩
      constructor <;> grind
  | swap i =>
      simp only [Sweeping.step, Option.ite_none_right_eq_some, Option.some.injEq] at stepped
      rcases stepped with ⟨dispatching, rfl⟩
      exact released.setQueue i _ (unpended i) List.not_mem_nil
  | run i ended =>
      rcases step_run stepped with ⟨other, tmpTasks, pendingTasks, found, rfl⟩
      have queued : (state.setQueue i ⟨.draining, tmpTasks, pendingTasks⟩).Released
          connection := by
        apply released.setQueue <;> grind
      have stillGone : (state.setQueue i ⟨.draining, tmpTasks, pendingTasks⟩).Gone connection :=
        gone
      exact queued.handler stillGone other ended
  | epollWait i =>
      rcases step_epollWait stepped with ⟨pendingTasks, found, rfl⟩
      apply released.setQueue <;> grind
  | epollReturn i ready =>
      simp only [Sweeping.step, Option.ite_none_right_eq_some, Option.some.injEq] at stepped
      rcases stepped with ⟨⟨waiting, reported⟩, rfl⟩
      apply released.setQueue
      · exact unqueued i
      intro member
      rcases List.mem_append.mp member with earlier | added
      · exact unpended i earlier
      · rcases mem_handlers added with ⟨readiness, within, rfl⟩
        have watching := (reported readiness within).1
        rw [unwatched] at watching
        contradiction
  | error other =>
      simp only [Sweeping.step, Option.ite_none_right_eq_some, Option.some.injEq] at stepped
      rcases stepped with ⟨dispatching, rfl⟩
      constructor
      · exact unqueued
      · exact unpended
      · simp only [setWatched]
        grind
      · exact unregistered
  | visit other =>
      rcases step_visit stepped with ⟨_, rfl⟩ | ⟨_, rfl⟩
      · exact released
      · exact ⟨unqueued, unpended, unwatched, unregistered⟩

/-- The loop is at `epoll_wait` only with no task left of its turn. -/
theorem Gone.released {connection : Nat} (gone : state.Gone connection)
    (consistent : state.Consistent)
    (stepped : state.step (.epollWait (state.home connection)) = some next) :
    next.Released connection := by
  rcases step_epollWait stepped with ⟨pendingTasks, found, rfl⟩
  have home := consistent.home connection
  have released : state.Released connection := by
    rcases consistent with ⟨home, present, pending, inSet, registering, unwatched, idle, drained⟩
    simp only [Gone] at gone
    constructor <;> grind
  have unpended := released.unpended (state.home connection)
  apply released.setQueue <;> grind

/-- Once the turn in which a connection was closed is over, nothing in an IO thread
leads to it any more. -/
theorem released_after_turn {earlier later : List SweepingEvent} {closing final : Sweeping}
    {connection : Nat} (before : sweepingSystem.Run {} earlier closing)
    (closed : closing.life connection = .closed)
    (after : sweepingSystem.Run closing later final)
    (waited : .epollWait (closing.home connection) ∈ later) :
    final.Released connection := by
  have consistent := before.preserves Consistent kept_consistent Consistent.initial
  rcases List.append_of_mem waited with ⟨turn, rest, rfl⟩
  rcases after.split with ⟨waiting, during, afterwards⟩
  have stillGone := during.preserves
    (fun state => state.Gone connection ∧ state.home connection = closing.home connection)
    (fun current event next inside step => by
      have kept := inside.1.step step.2
      exact ⟨kept.1, kept.2.trans inside.2⟩)
    ⟨.inl closed, rfl⟩
  have settled := during.preserves Consistent kept_consistent consistent
  cases afterwards with
  | cons wait others =>
      have stepped := wait.2
      rw [← stillGone.2] at stepped
      have released := stillGone.1.released settled stepped
      have gone := (stillGone.1.step stepped).1
      have last := others.preserves
        (fun state => state.Gone connection ∧ state.Released connection)
        (fun current event next inside step =>
          ⟨(inside.1.step step.2).1, inside.2.step inside.1 step.2⟩)
        ⟨gone, released⟩
      exact last.2

/-- The executable step of `sweepingSystem`. -/
def stepDefined : Sweeping → SweepingEvent → Option Sweeping :=
  Transition.System.guarded (fun state _ => state.undefined = false) step

theorem computed_run (start : Sweeping) (events : List SweepingEvent)
    (computes : (events.foldlM stepDefined start).isSome) :
    sweepingSystem.Run start events ((events.foldlM stepDefined start).get computes) :=
  .of_foldlM (fun _ _ _ stepped => Option.ite_none_right_eq_some.mp stepped)
    (Option.some_get computes).symm

/-- The request of a connection is answered, and its next turn has both handlers: the
first finds that the peer is gone. -/
def closedInTurn : List SweepingEvent :=
  [.accept 5 0, .swap 0, .register 5, .epollWait 0, .epollReturn 0 [⟨5, true, false⟩], .swap 0,
    .run 0 .listens, .epollWait 0, .epollReturn 0 [⟨5, true, true⟩], .swap 0, .run 0 .peerClosed]

def restOfTurn : List SweepingEvent :=
  [.run 0 .unchanged, .epollWait 0, .visit 5]

theorem closedInTurn_computes : (closedInTurn.foldlM stepDefined {}).isSome := by
  decide +kernel

theorem restOfTurn_computes : (restOfTurn.foldlM stepDefined
    ((closedInTurn.foldlM stepDefined {}).get closedInTurn_computes)).isSome := by
  decide +kernel

theorem released_after_turn_closedInTurn :
    ∃ closing final, sweepingSystem.Run {} closedInTurn closing ∧
      5 ∈ (closing.queues 0).tmpTasks ∧ sweepingSystem.Run closing restOfTurn final ∧
      final.life 5 = .freed ∧ final.Released 5 := by
  have before := computed_run {} closedInTurn closedInTurn_computes
  have after := computed_run _ restOfTurn restOfTurn_computes
  exact ⟨_, _, before, by decide +kernel, after, by decide +kernel,
    released_after_turn before (by decide +kernel) after (by decide +kernel)⟩

end Sweeping

end NetRpc
