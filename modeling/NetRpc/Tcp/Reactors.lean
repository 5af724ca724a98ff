import Mathlib.Data.Option.Basic
import Mathlib.Logic.Function.Basic
import NetRpc.EventLoop.IOThread
import NetRpc.Foundation.Rounds

/-! # The main reactor and the IO threads

A TcpServer makes its IO threads one after another, starts them, and from then
on accepts connections in its own thread. Each connection is handed to the next
IO thread in turn: the task that registers it is put into the queue of that
thread's event loop.

Every accept is taken to succeed, and the number of threads to fit its type.
-/

namespace NetRpc

/-- What `getCPUUtilization` and `getAverageLoad` tell. -/
structure Usage where
  /-- One of the two is above 0.8. -/
  high : Bool
  /-- One of the two is below 0.2. -/
  low : Bool

structure IOThreadGroup where
  threads : List IOThread := []
  index : Int := 0

namespace IOThreadGroup

/-- The number of threads that the constructor makes. -/
def sizeFor (size : Int) (usage : Usage) : Int :=
  let size := if usage.high then size * 2 else size
  if usage.low then
    let size := size.tdiv 2
    if size < 2 then 2 else size
  else size

/-- The result is `none` where the vector is read outside of its bounds. -/
def getIOThread (group : IOThreadGroup) : Option (Nat × IOThreadGroup) :=
  let index := if group.index = group.threads.length ∨ group.index = -1 then 0 else group.index
  if 0 ≤ index ∧ index < group.threads.length then
    some (index.toNat, { group with index := index + 1 })
  else none

theorem sizeFor_pos_iff (size : Int) (usage : Usage) :
    0 < sizeFor size usage ↔ 0 < size ∨ usage.low := by
  rcases usage with ⟨high, low⟩
  cases high <;> cases low <;> simp [sizeFor] <;> omega

end IOThreadGroup

/-- Where the thread that has made the server is. -/
inductive ServerPoint
  /-- In the constructor of the group. -/
  | creating
  /-- In `IOThreadGroup::start`, with this many threads started. -/
  | starting (threads : Nat)
  | looping
deriving DecidableEq

/-- The connections are numbered as they are accepted. -/
structure Reactors where
  size : Nat
  group : IOThreadGroup := {}
  point : ServerPoint := .creating
  /-- The IO thread of each accepted connection. -/
  accepted : List Nat := []
  /-- The connections whose registration is in the queue of a thread's event loop. -/
  pending : Nat → List Nat := fun _ => []
  /-- The connections that a thread has put into its epoll. -/
  registered : Nat → List Nat := fun _ => []
  undefined : Bool := false

inductive ReactorEvent
  /-- `new IOThread()`, up to the `sem_wait` of its constructor. -/
  | newIOThread
  /-- That `sem_wait` returns. -/
  | created
  /-- The group is complete, and `start` is called. -/
  | startGroup
  | start
  /-- `m_main_eventloop->loop()` -/
  | loop
  /-- `onAccept`, with a valid descriptor. -/
  | onAccept
  /-- A statement of `Main` in an IO thread. -/
  | main (i : Nat) (event : IOThreadEvent)
  /-- An IO thread runs the task that registers a connection. -/
  | register (i : Nat)
deriving DecidableEq

/-- The events of the IO thread itself. -/
def IOThreadEvent.ofMain : IOThreadEvent → Bool
  | .newEventLoop | .postInit | .startWait | .started | .leaveLoop => true
  | _ => false

/-- The events of an IOThread that its server makes. -/
def IOThreadEvent.ofServer : IOThreadEvent → Bool
  | .created | .start => true
  | event => event.ofMain

namespace Reactors

def setThread (state : Reactors) (i : Nat) (thread : IOThread) : Reactors :=
  { state with group.threads := state.group.threads.set i thread }

/-- The step of one IOThread. -/
def stepThread (state : Reactors) (i : Nat) (event : IOThreadEvent) : Option Reactors := do
  let thread ← state.group.threads[i]?
  let next ← thread.step event
  some (state.setThread i next)

/-- The thread that has made the server goes on. -/
def moveTo (state : Reactors) (point : ServerPoint) : Reactors :=
  { state with point }

/-- The next connection belongs to thread `i`, which has its registration to do. -/
def handTo (state : Reactors) (i : Nat) (group : IOThreadGroup) : Reactors where
  size := state.size
  group := group
  point := state.point
  accepted := state.accepted ++ [i]
  pending := Function.update state.pending i (state.pending i ++ [state.accepted.length])
  registered := state.registered
  undefined := state.undefined

/-- `getEventLoop` of the chosen thread, and `addTask` there. -/
def onAccept (state : Reactors) : Reactors :=
  match state.group.getIOThread with
  | none => { state with undefined := true }
  | some (i, group) =>
      match (group.threads[i]?).bind IOThread.eventLoop with
      | none => { state with undefined := true }
      | some _ => state.handTo i group

/-- A thread has registered the first connection of its queue. -/
def registerNext (state : Reactors) (i connection : Nat) (pending : List Nat) : Reactors :=
  { state with
    pending := Function.update state.pending i pending
    registered := Function.update state.registered i (state.registered i ++ [connection]) }

def step (state : Reactors) : ReactorEvent → Option Reactors
  | .newIOThread => do
      guard (state.point = .creating ∧ state.group.threads.length < state.size ∧
        ∀ thread ∈ state.group.threads, thread.owner = .constructed)
      let thread ← IOThread.step {} .construct
      some { state with group.threads := state.group.threads ++ [thread] }
  | .created => do
      guard (state.point = .creating)
      state.stepThread (state.group.threads.length - 1) .created
  | .startGroup => do
      guard (state.point = .creating ∧ state.group.threads.length = state.size ∧
        ∀ thread ∈ state.group.threads, thread.owner = .constructed)
      some (state.moveTo (.starting 0))
  | .start =>
      match state.point with
      | .starting threads => do
          let next ← state.stepThread threads .start
          some (next.moveTo (.starting (threads + 1)))
      | _ => none
  | .loop => do
      guard (state.point = .starting state.size)
      some (state.moveTo .looping)
  | .onAccept => do
      guard (state.point = .looping)
      some state.onAccept
  | .main i event => do
      guard event.ofMain
      state.stepThread i event
  | .register i => do
      let thread ← state.group.threads[i]?
      guard (thread.main = .looping)
      match state.pending i with
      | [] => none
      | connection :: pending => some (state.registerNext i connection pending)

/-- The connections that were handed to a thread. -/
def connectionsOf (accepted : List Nat) (i : Nat) : List Nat :=
  (List.range accepted.length).filter fun connection => accepted[connection]? = some i

end Reactors

/-- The server with its IO threads, in any order of their steps. -/
def reactorSystem (ioThreads : Int) (usage : Usage) :
    Transition.System Reactors ReactorEvent where
  Initial state := (state.size : Int) = IOThreadGroup.sizeFor ioThreads usage ∧
    state = { size := state.size }
  Step state event next := state.undefined = false ∧ state.step event = some next

namespace IOThread

variable {thread next : IOThread} {event : IOThreadEvent}

theorem Proper.eventLoop_ne_none (proper : thread.Proper)
    (constructed : thread.owner = .constructed) : thread.eventLoop ≠ none := by
  cases proper <;> cases constructed
  exact nofun

/-- What a thread of the server has got to is not taken back. -/
structure Later (next thread : IOThread) : Prop where
  proper : next.Proper
  constructed : thread.owner = .constructed → next.owner = .constructed
  started : thread.Started → next.Started
  past : thread.Past → next.Past
  notQuit : thread.eventLoop ≠ some true → next.eventLoop ≠ some true

theorem Proper.started_of_start (proper : thread.Proper)
    (stepped : thread.step .start = some next) : next.Started := by
  cases proper <;> cases stepped
  exact .inr (Nat.succ_pos _)

theorem Proper.later_of_step (proper : thread.Proper) (stepped : thread.step event = some next)
    (ofServer : event.ofServer) : next.Later thread := by
  cases event with
  | start =>
      refine ⟨proper.step stepped trivial, ?_, fun _ => proper.started_of_start stepped, ?_, ?_⟩ <;>
        grind [IOThread.step, fail, Past]
  | created | newEventLoop | postInit | startWait | started | leaveLoop =>
      refine ⟨proper.step stepped trivial, ?_, ?_, ?_, ?_⟩ <;>
        grind [IOThread.step, fail, Started, Past]
  | _ => cases ofServer

/-- A thread that has been started gets to its loop by its own steps. -/
theorem Proper.approaches_loop (proper : thread.Proper) (constructed : thread.owner = .constructed)
    (started : thread.Started) (notQuit : thread.eventLoop ≠ some true) :
    thread.main = .looping ∨ ∃ event next, event.ofMain = true ∧ thread.step event = some next ∧
      next.main.left < thread.main.left := by
  cases proper <;> cases constructed
  case constructed starts behind =>
    cases started.passing behind with
    | posted => exact .inr ⟨.startWait, _, rfl, rfl, Nat.lt_succ_self 2⟩
    | waiting pending =>
        cases starts with
        | zero => cases pending
        | succ starts => exact .inr ⟨.started, _, rfl, rfl, Nat.lt_succ_self 1⟩
    | looping => exact .inl rfl
    | ended =>
        cases behind
        exact absurd rfl notQuit

end IOThread

namespace Reactors

variable {state next : Reactors}

/-- What the step of one thread does to the group. -/
theorem stepThread_spec {i : Nat} {event : IOThreadEvent}
    (stepped : state.stepThread i event = some next) :
    ∃ thread after, state.group.threads[i]? = some thread ∧ thread.step event = some after ∧
      next = state.setThread i after := by
  simp only [stepThread, Option.bind_eq_bind, Option.bind_eq_some_iff, Option.some.injEq]
    at stepped
  rcases stepped with ⟨thread, there, after, ran, rfl⟩
  exact ⟨thread, after, there, ran, rfl⟩

/-- How many threads have been started for sure. -/
def startedCount (state : Reactors) : Nat :=
  match state.point with
  | .creating => 0
  | .starting threads => threads
  | .looping => state.size

/-- What holds of the IO threads. -/
structure Hosted (state : Reactors) : Prop where
  proper : ∀ thread ∈ state.group.threads, thread.Proper
  notQuit : ∀ thread ∈ state.group.threads, thread.eventLoop ≠ some true
  complete : state.point ≠ .creating → state.group.threads.length = state.size ∧
    ∀ thread ∈ state.group.threads, thread.owner = .constructed
  started : ∀ i thread, i < state.startedCount → state.group.threads[i]? = some thread →
    thread.Started

theorem Hosted.stepThread {i : Nat} {event : IOThreadEvent} (hosted : state.Hosted)
    (stepped : state.stepThread i event = some next) (ofServer : event.ofServer) :
    next.Hosted := by
  rcases stepThread_spec stepped with ⟨thread, after, there, ran, rfl⟩
  have member := List.mem_of_getElem? there
  have later := (hosted.proper thread member).later_of_step ran ofServer
  refine ⟨?_, ?_, ?_, ?_⟩
  · intro other changed
    rcases List.mem_or_eq_of_mem_set changed with same | rfl
    · exact hosted.proper other same
    · exact later.proper
  · intro other changed
    rcases List.mem_or_eq_of_mem_set changed with same | rfl
    · exact hosted.notQuit other same
    · exact later.notQuit (hosted.notQuit thread member)
  · intro behind
    have complete := hosted.complete behind
    refine ⟨List.length_set.trans complete.1, fun other changed => ?_⟩
    rcases List.mem_or_eq_of_mem_set changed with same | rfl
    · exact complete.2 other same
    · exact later.constructed (complete.2 thread member)
  · intro place other counted found
    simp only [setThread, List.getElem?_set] at found
    split at found
    case isTrue same =>
      split at found
      · cases found
        exact later.started (hosted.started i thread (same ▸ counted) there)
      · cases found
    case isFalse => exact hosted.started place other counted found

/-- Where the group goes on when it is asked for a thread. -/
def cursor (state : Reactors) : Nat :=
  if state.group.index = state.size then 0 else state.group.index.toNat

/-- What holds of the connections. -/
structure Dealt (state : Reactors) : Prop where
  defined : state.undefined = false
  inside : state.cursor < state.size
  notNegative : 0 ≤ state.group.index
  idle : state.point ≠ .looping → state.accepted = []
  within : ∀ i ∈ state.accepted, i < state.size
  rounds : ∃ rounds, Rounds.Dealt (List.range state.size) state.accepted rounds
  inTurn : Rounds.current (List.range state.size) state.accepted = List.range state.cursor
  kept : ∀ i, state.registered i ++ state.pending i = connectionsOf state.accepted i
  afterStart : ∀ i, state.registered i ≠ [] →
    ∃ thread, state.group.threads[i]? = some thread ∧ thread.Past

theorem Dealt.stepThread {i : Nat} {event : IOThreadEvent} (hosted : state.Hosted)
    (dealt : state.Dealt) (stepped : state.stepThread i event = some next)
    (ofServer : event.ofServer) : next.Dealt := by
  rcases stepThread_spec stepped with ⟨thread, after, there, ran, rfl⟩
  have later := (hosted.proper thread (List.mem_of_getElem? there)).later_of_step ran ofServer
  refine { dealt with afterStart := ?_ }
  intro place some
  rcases dealt.afterStart place some with ⟨other, found, past⟩
  by_cases same : i = place
  · subst same
    rw [there] at found
    cases found
    exact ⟨after, List.getElem?_set_self (List.getElem?_eq_some_iff.mp there).1, later.past past⟩
  · exact ⟨other, (List.getElem?_set_ne same).trans found, past⟩

/-- The group behind the choice of the thread at the cursor. -/
def chosen (state : Reactors) : IOThreadGroup :=
  { state.group with index := state.cursor + 1 }

theorem getIOThread_eq (hosted : state.Hosted) (dealt : state.Dealt)
    (behind : state.point ≠ .creating) :
    state.group.getIOThread = some (state.cursor, state.chosen) := by
  have size := (hosted.complete behind).1
  have notNegative := dealt.notNegative
  have inside := dealt.inside
  rw [cursor] at inside
  simp only [IOThreadGroup.getIOThread, chosen, cursor, size]
  by_cases last : state.group.index = state.size
  · rw [if_pos last] at inside
    simp only [last, true_or, if_true]
    rw [if_pos ⟨Int.le_refl 0, Int.natCast_pos.mpr inside⟩]
    rfl
  · rw [if_neg last] at inside
    have proceeds : ¬(state.group.index = state.size ∨ state.group.index = -1) := by omega
    rw [if_neg proceeds, if_neg last, if_pos (by omega), Int.toNat_of_nonneg notNegative]

theorem connectionsOf_append (accepted : List Nat) (i place : Nat) :
    connectionsOf (accepted ++ [i]) place =
      connectionsOf accepted place ++ if i = place then [accepted.length] else [] := by
  have before : (List.range accepted.length).filter
      (fun connection => (accepted ++ [i])[connection]? = some place) =
        connectionsOf accepted place := by
    apply List.filter_congr
    intro connection inside
    rw [List.getElem?_append_left (List.mem_range.mp inside)]
  rw [connectionsOf, List.length_append, List.length_singleton, List.range_succ,
    List.filter_append, before, List.filter_singleton]
  simp

/-- The cursor behind a chosen thread. -/
theorem cursor_eq {place : Nat} (index : state.group.index = place + 1) :
    state.cursor = if place + 1 = state.size then 0 else place + 1 := by
  have same : ((place : Int) + 1 = state.size) = (place + 1 = state.size) := by
    rw [eq_iff_iff]
    omega
  rw [cursor, index]
  simp only [same]
  rfl

theorem onAccept_eq (hosted : state.Hosted) (dealt : state.Dealt)
    (looping : state.point = .looping) :
    state.onAccept = state.handTo state.cursor state.chosen := by
  have behind : state.point ≠ .creating := by
    rw [looping]
    nofun
  rcases hosted.complete behind with ⟨size, constructed⟩
  have inside : state.cursor < state.group.threads.length := size ▸ dealt.inside
  have member := List.getElem_mem inside
  have there := (hosted.proper _ member).eventLoop_ne_none (constructed _ member)
  rcases Option.ne_none_iff_exists'.mp there with ⟨quit, eventLoop⟩
  simp only [onAccept, getIOThread_eq hosted dealt behind, chosen, List.getElem?_eq_getElem inside,
    Option.bind_some, eventLoop]

theorem Dealt.onAccept (hosted : state.Hosted) (dealt : state.Dealt)
    (looping : state.point = .looping) : state.onAccept.Dealt := by
  have inside := dealt.inside
  have advanced : (state.handTo state.cursor state.chosen).cursor =
      if state.cursor + 1 = state.size then 0 else state.cursor + 1 := cursor_eq rfl
  have fresh : state.cursor ∉ Rounds.current (List.range state.size) state.accepted := by
    rw [dealt.inTurn]
    exact List.not_mem_range_self
  rcases dealt.rounds with ⟨_, rounds⟩
  rw [onAccept_eq hosted dealt looping]
  refine ⟨dealt.defined, ?_, ?_, ?_, ?_, ?_, ?_, ?_, dealt.afterStart⟩
  · show (state.handTo state.cursor state.chosen).cursor < state.size
    rw [advanced]
    split <;> omega
  · exact Int.le_add_one (Int.natCast_nonneg _)
  · exact fun notLooping => absurd looping notLooping
  · intro i member
    rcases List.mem_append.mp member with before | now
    · exact dealt.within i before
    · exact List.mem_singleton.mp now ▸ inside
  · exact rounds.append List.nodup_range (List.mem_range.mpr inside) fresh
  · rw [advanced]
    show Rounds.current (List.range state.size) (state.accepted ++ [state.cursor]) = _
    rw [Rounds.current_append, dealt.inTurn, Rounds.deal, List.length_range, List.length_range]
    split
    · rfl
    · exact List.range_succ.symm
  · intro i
    show state.registered i ++ Function.update state.pending state.cursor
      (state.pending state.cursor ++ [state.accepted.length]) i =
        connectionsOf (state.accepted ++ [state.cursor]) i
    rw [connectionsOf_append, ← dealt.kept i]
    by_cases same : state.cursor = i
    · rw [if_pos same, same, Function.update_self, List.append_assoc]
    · rw [if_neg same, Function.update_of_ne (Ne.symm same), List.append_nil]

theorem register_spec {i : Nat} (stepped : state.step (.register i) = some next) :
    ∃ thread connection pending, state.group.threads[i]? = some thread ∧
      thread.main = .looping ∧ state.pending i = connection :: pending ∧
      next = state.registerNext i connection pending := by
  simp only [step, Option.bind_eq_bind, Option.bind_eq_some_iff, Option.guard_eq_some'] at stepped
  rcases stepped with ⟨thread, there, _, looping, stepped⟩
  cases rest : state.pending i with
  | nil =>
      rw [rest] at stepped
      cases stepped
  | cons connection pending =>
      rw [rest] at stepped
      exact ⟨thread, connection, pending, there, looping, rfl, (Option.some.inj stepped).symm⟩

theorem Dealt.register {i connection : Nat} {pending : List Nat} {thread : IOThread}
    (dealt : state.Dealt) (there : state.group.threads[i]? = some thread)
    (looping : thread.main = .looping) (rest : state.pending i = connection :: pending) :
    (state.registerNext i connection pending).Dealt := by
  refine { dealt with kept := ?_, afterStart := ?_ }
  · intro place
    show Function.update state.registered i (state.registered i ++ [connection]) place ++
      Function.update state.pending i pending place = connectionsOf state.accepted place
    rw [← dealt.kept place]
    by_cases same : place = i
    · rw [same, Function.update_self, Function.update_self, rest, List.append_assoc]
      rfl
    · rw [Function.update_of_ne same, Function.update_of_ne same]
  · intro place some
    by_cases same : place = i
    · exact ⟨thread, same ▸ there, .inl looping⟩
    · apply dealt.afterStart place
      rw [← Function.update_of_ne same (state.registered i ++ [connection]) state.registered]
      exact some

theorem sound_newIOThread (hosted : state.Hosted) (dealt : state.Dealt)
    (stepped : state.step .newIOThread = some next) : next.Hosted ∧ next.Dealt := by
  simp only [step, Option.bind_eq_bind, Option.bind_eq_some_iff, Option.guard_eq_some'] at stepped
  rcases stepped with ⟨_, ⟨creating, _, _⟩, made, construct, ⟨⟩⟩
  have proper : made.Proper := IOThread.Proper.outside.step construct trivial
  have notQuit : made.eventLoop ≠ some true := by
    cases construct
    nofun
  refine ⟨⟨?_, ?_, ?_, ?_⟩, { dealt with afterStart := ?_ }⟩
  · intro thread member
    rcases List.mem_append.mp member with before | new
    · exact hosted.proper thread before
    · exact List.mem_singleton.mp new ▸ proper
  · intro thread member
    rcases List.mem_append.mp member with before | new
    · exact hosted.notQuit thread before
    · exact List.mem_singleton.mp new ▸ notQuit
  · exact fun behind => absurd creating behind
  · intro i thread counted
    rw [startedCount, creating] at counted
    cases counted
  · intro i some
    rcases dealt.afterStart i some with ⟨thread, there, past⟩
    refine ⟨thread, ?_, past⟩
    rw [← there]
    exact List.getElem?_append_left (List.getElem?_eq_some_iff.mp there).1

theorem Dealt.moveTo (dealt : state.Dealt) {point : ServerPoint}
    (onward : state.point ≠ .looping ∨ point = .looping) : (state.moveTo point).Dealt := by
  refine ⟨dealt.defined, dealt.inside, dealt.notNegative, fun notLooping => ?_, dealt.within,
    dealt.rounds, dealt.inTurn, dealt.kept, dealt.afterStart⟩
  rcases onward with before | now
  · exact dealt.idle before
  · exact absurd now notLooping

theorem sound_start (hosted : state.Hosted) (dealt : state.Dealt)
    (stepped : state.step .start = some next) : next.Hosted ∧ next.Dealt := by
  simp only [step] at stepped
  split at stepped
  case h_1 threads starting =>
    simp only [Option.bind_eq_bind, Option.bind_eq_some_iff] at stepped
    rcases stepped with ⟨middle, ran, ⟨⟩⟩
    have hostedThere := hosted.stepThread ran rfl
    have dealtThere := dealt.stepThread hosted ran rfl
    rcases stepThread_spec ran with ⟨thread, after, there, started, rfl⟩
    have behind : state.point ≠ .creating := by
      rw [starting]
      nofun
    refine ⟨⟨hostedThere.proper, hostedThere.notQuit, fun _ => hostedThere.complete behind, ?_⟩,
      dealtThere.moveTo (.inl ?_)⟩
    · intro i other counted found
      rcases Nat.lt_succ_iff_lt_or_eq.mp counted with before | now
      · apply hostedThere.started i other _ found
        show i < state.startedCount
        rw [startedCount, starting]
        exact before
      · have same : (state.group.threads.set threads after)[i]? = some other := found
        rw [now, List.getElem?_set_self (List.getElem?_eq_some_iff.mp there).1] at same
        cases same
        exact (hosted.proper thread (List.mem_of_getElem? there)).started_of_start started
    · show state.point ≠ .looping
      rw [starting]
      nofun
  case h_2 => cases stepped

theorem step_sound {event : ReactorEvent} (hosted : state.Hosted) (dealt : state.Dealt)
    (stepped : state.step event = some next) : next.Hosted ∧ next.Dealt := by
  cases event with
  | newIOThread => exact sound_newIOThread hosted dealt stepped
  | created =>
      simp only [step, Option.bind_eq_bind, Option.bind_eq_some_iff] at stepped
      rcases stepped with ⟨_, _, stepped⟩
      exact ⟨hosted.stepThread stepped rfl, dealt.stepThread hosted stepped rfl⟩
  | startGroup =>
      simp only [step, Option.bind_eq_bind, Option.bind_eq_some_iff, Option.guard_eq_some']
        at stepped
      rcases stepped with ⟨_, ⟨creating, complete⟩, ⟨⟩⟩
      refine ⟨⟨hosted.proper, hosted.notQuit, fun _ => complete, ?_⟩, dealt.moveTo (.inl ?_)⟩
      · intro i thread none
        exact absurd none (Nat.not_lt_zero i)
      · rw [creating]
        nofun
  | start => exact sound_start hosted dealt stepped
  | loop =>
      simp only [step, Option.bind_eq_bind, Option.bind_eq_some_iff, Option.guard_eq_some']
        at stepped
      rcases stepped with ⟨_, starting, ⟨⟩⟩
      refine ⟨⟨hosted.proper, hosted.notQuit, fun _ => hosted.complete ?_, ?_⟩,
        dealt.moveTo (.inr rfl)⟩
      · rw [starting]
        nofun
      · intro i thread counted
        apply hosted.started i thread
        rw [startedCount, starting]
        exact counted
  | onAccept =>
      simp only [step, Option.bind_eq_bind, Option.bind_eq_some_iff, Option.guard_eq_some']
        at stepped
      rcases stepped with ⟨_, looping, ⟨⟩⟩
      refine ⟨?_, dealt.onAccept hosted looping⟩
      rw [onAccept_eq hosted dealt looping]
      exact ⟨hosted.proper, hosted.notQuit, hosted.complete, hosted.started⟩
  | main i event =>
      simp only [step, Option.bind_eq_bind, Option.bind_eq_some_iff, Option.guard_eq_some']
        at stepped
      rcases stepped with ⟨_, ofMain, stepped⟩
      have ofServer : event.ofServer := by
        cases event <;> first | exact ofMain | cases ofMain
      exact ⟨hosted.stepThread stepped ofServer, dealt.stepThread hosted stepped ofServer⟩
  | register i =>
      rcases register_spec stepped with ⟨thread, connection, pending, there, looping, rest, rfl⟩
      exact ⟨⟨hosted.proper, hosted.notQuit, hosted.complete, hosted.started⟩,
        dealt.register there looping rest⟩

theorem hosted_initial (size : Nat) : ({ size } : Reactors).Hosted where
  proper _ member := absurd member List.not_mem_nil
  notQuit _ member := absurd member List.not_mem_nil
  complete behind := absurd rfl behind
  started i _ counted := absurd counted (Nat.not_lt_zero i)

theorem dealt_initial {size : Nat} (some : 0 < size) : ({ size } : Reactors).Dealt := by
  have cursor : ({ size } : Reactors).cursor = 0 := ite_self 0
  refine ⟨rfl, ?_, Int.le_refl 0, fun _ => rfl, ?_, ⟨0, .nil ?_⟩, ?_, fun _ => rfl, ?_⟩
  · rw [cursor]
    exact some
  · exact fun _ member => absurd member List.not_mem_nil
  · exact fun empty => Nat.ne_of_gt some (List.range_eq_nil.mp empty)
  · rw [cursor]
    rfl
  · exact fun _ none => absurd rfl none

theorem sound_of_run {ioThreads : Int} {usage : Usage} {initial : Reactors}
    {events : List ReactorEvent} (populated : 0 < ioThreads ∨ usage.low)
    (isInitial : (reactorSystem ioThreads usage).Initial initial)
    (run : (reactorSystem ioThreads usage).Run initial events state) :
    state.Hosted ∧ state.Dealt := by
  apply run.preserves (fun state => state.Hosted ∧ state.Dealt)
  · intro current event next sound step
    exact step_sound sound.1 sound.2 step.2
  · rcases isInitial with ⟨size, fresh⟩
    have some := (IOThreadGroup.sizeFor_pos_iff ioThreads usage).mpr populated
    rw [fresh]
    exact ⟨hosted_initial _, dealt_initial (by omega)⟩

/-! ## What the server does for its connections -/

structure Served (state : Reactors) : Prop where
  defined : state.undefined = false
  /-- No thread has been given two connections more than another. -/
  fair : Rounds.Even (List.range state.size) state.accepted
  /-- A thread registers its own connections, in the order in which they came. -/
  kept : ∀ i, state.registered i ++ state.pending i = connectionsOf state.accepted i
  afterStart : ∀ i, state.registered i ≠ [] →
    ∃ thread, state.group.threads[i]? = some thread ∧ thread.Past

end Reactors

/-- What thread `i` does. -/
def ReactorEvent.ofThread (i : Nat) : ReactorEvent → Bool
  | .main place _ | .register place => place = i
  | _ => false

namespace Reactors

variable {state : Reactors}

/-- The steps that thread `i` is away from an empty queue. -/
def away (i : Nat) (state : Reactors) : Nat :=
  (state.group.threads[i]?.map fun thread => thread.main.left).getD 0 + (state.pending i).length

theorem mem_of_connectionsOf_ne_nil {accepted : List Nat} {i : Nat}
    (some : connectionsOf accepted i ≠ []) : i ∈ accepted := by
  rcases List.exists_mem_of_ne_nil _ some with ⟨connection, member⟩
  have place := (List.mem_filter.mp member).2
  exact List.mem_of_getElem? (of_decide_eq_true place)

/-- A thread with a connection to register can do something about it. -/
theorem approaches {i : Nat} (hosted : state.Hosted) (dealt : state.Dealt)
    (waiting : state.pending i ≠ []) :
    ∃ event next, state.step event = some next ∧ event.ofThread i = true ∧
      next.accepted = state.accepted ∧ next.away i < state.away i := by
  have handed : i ∈ state.accepted := by
    apply mem_of_connectionsOf_ne_nil
    rw [← dealt.kept i]
    exact List.append_ne_nil_of_right_ne_nil _ waiting
  have looping : state.point = .looping := by
    by_contra notLooping
    rw [dealt.idle notLooping] at handed
    cases handed
  have behind : state.point ≠ .creating := by
    rw [looping]
    nofun
  rcases hosted.complete behind with ⟨size, constructed⟩
  have inside : i < state.group.threads.length := size ▸ dealt.within i handed
  have there := List.getElem?_eq_getElem inside
  have member := List.getElem_mem inside
  have counted : i < state.startedCount := by
    rw [startedCount, looping]
    exact dealt.within i handed
  rcases (hosted.proper _ member).approaches_loop (constructed _ member)
    (hosted.started i _ counted there) (hosted.notQuit _ member) with
    loops | ⟨event, next, ofMain, stepped, closer⟩
  · rcases List.exists_cons_of_ne_nil waiting with ⟨connection, pending, rest⟩
    refine ⟨.register i, state.registerNext i connection pending, ?_, decide_eq_true rfl, rfl, ?_⟩
    · simp [step, there, loops, rest]
    · simp [away, registerNext, rest]
  · refine ⟨.main i event, state.setThread i next, ?_, decide_eq_true rfl, rfl, ?_⟩
    · simp [step, ofMain, stepThread, there, stepped]
    · have changed : (state.setThread i next).group.threads[i]? = some next :=
        List.getElem?_set_self inside
      rw [away, away, changed, there]
      exact Nat.add_lt_add_right closer _

/-- However the threads take turns, every connection is handed to an IO thread that
has its event loop, the IO threads get equally many, and each of them registers
its own in order. At any time it can register those that are left, on its own. -/
theorem connections_served {ioThreads : Int} {usage : Usage} {initial final : Reactors}
    {events : List ReactorEvent} (populated : 0 < ioThreads ∨ usage.low)
    (isInitial : (reactorSystem ioThreads usage).Initial initial)
    (run : (reactorSystem ioThreads usage).Run initial events final) :
    final.Served ∧ ∀ i, ∃ later last,
      ((reactorSystem ioThreads usage).restrict fun _ event => event.ofThread i).Run
        final later last ∧
      last.registered i = connectionsOf final.accepted i := by
  rcases sound_of_run populated isInitial run with ⟨hosted, dealt⟩
  rcases dealt.rounds with ⟨_, rounds⟩
  refine ⟨⟨dealt.defined, rounds.even, dealt.kept, dealt.afterStart⟩, fun i => ?_⟩
  have progress : ∀ state : Reactors,
      (state.Hosted ∧ state.Dealt ∧ state.accepted = final.accepted) →
      state.registered i = connectionsOf final.accepted i ∨ ∃ event next,
        ((reactorSystem ioThreads usage).restrict fun _ event => event.ofThread i).Step
          state event next ∧
        (next.Hosted ∧ next.Dealt ∧ next.accepted = final.accepted) ∧
        next.away i < state.away i := by
    intro state inside
    rcases inside with ⟨hosted, dealt, accepted⟩
    by_cases empty : state.pending i = []
    · left
      rw [← accepted, ← dealt.kept i, empty, List.append_nil]
    · right
      rcases approaches hosted dealt empty with ⟨event, next, stepped, ofThread, kept, closer⟩
      rcases step_sound hosted dealt stepped with ⟨nextHosted, nextDealt⟩
      exact ⟨event, next, ⟨⟨dealt.defined, stepped⟩, ofThread⟩,
        ⟨nextHosted, nextDealt, kept.trans accepted⟩, closer⟩
  exact Transition.System.exists_run_of_measure (away i) progress ⟨hosted, dealt, rfl⟩

/-- Two threads, of which the first registers a connection before the third one comes. -/
def twoThreads : List ReactorEvent := [
  .newIOThread, .main 0 .newEventLoop, .main 0 .postInit, .created, .newIOThread,
  .main 0 .startWait, .main 1 .newEventLoop, .main 1 .postInit, .created, .startGroup, .start,
  .main 0 .started, .start, .loop, .onAccept, .register 0, .onAccept, .onAccept]

theorem connections_served_twoThreads :
    ∃ final : Reactors, (final.accepted = [0, 1, 0] ∧ final.pending 0 = [2]) ∧ final.Served ∧
      ∀ i, ∃ later last,
        ((reactorSystem 2 ⟨false, false⟩).restrict fun _ event => event.ofThread i).Run
          final later last ∧
        last.registered i = connectionsOf final.accepted i := by
  have computed : (twoThreads.foldlM
      (Transition.System.guarded (fun state _ => state.undefined = false) step)
        { size := 2 }).map (fun state => (state.accepted, state.pending 0)) =
      some ([0, 1, 0], [2]) := by
    decide +kernel
  rcases @Transition.System.Run.of_observed _ _ _ (reactorSystem 2 ⟨false, false⟩) _
    (fun _ _ _ stepped => Option.ite_none_right_eq_some.mp stepped) _ _ _ _ computed with
    ⟨final, run, facts⟩
  exact ⟨final, Prod.mk.inj facts, connections_served (.inl (by decide)) ⟨rfl, rfl⟩ run⟩

end Reactors

end NetRpc
