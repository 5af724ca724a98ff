import NetRpc.Foundation.Transition

/-! # The life of an IO thread

The owner of an IOThread and the thread itself meet at two semaphores. The
constructor waits at the first one until the thread has its event loop, and
the thread waits at the second one until `start`. The destructor destroys both
and only then joins.
-/

namespace NetRpc

/-- Where the thread that owns the IOThread is. -/
inductive OwnerPoint
  /-- In front of the constructor. -/
  | outside
  /-- At the `sem_wait` of the constructor. -/
  | creating
  | constructed
  /-- Inside `join`. -/
  | joining
  /-- In the destructor, behind `m_eventloop->stop()`. -/
  | stopped
  | initDestroyed
  | startDestroyed
  /-- Behind the `pthread_join` of the destructor. -/
  | joined
  | destructed
deriving DecidableEq

/-- Where the thread is in `Main`. -/
inductive MainPoint
  | absent
  | entered
  /-- Behind `new EventLoop()`. -/
  | created
  /-- Behind the `sem_post`. -/
  | posted
  /-- Inside `sem_wait(&m_start_semaphore)`. -/
  | waiting
  | looping
  | ended
deriving DecidableEq

/-- The event loop is known by its `m_quit`. It is missing where the pointer is
NULL, and a semaphore is missing where it is not initialized. -/
structure IOThread where
  owner : OwnerPoint := .outside
  main : MainPoint := .absent
  eventLoop : Option Bool := none
  initSemaphore : Option Nat := none
  startSemaphore : Option Nat := none
  /-- The thread has been joined. -/
  joined : Bool := false
  undefined : Bool := false
deriving DecidableEq

inductive IOThreadEvent
  /-- The constructor, up to its `sem_wait`. -/
  | construct
  /-- The `sem_wait` of the constructor returns. -/
  | created
  | start
  /-- `join` is called. -/
  | join
  /-- Its `pthread_join` returns. -/
  | joinReturn
  /-- The statements of the destructor. -/
  | stop
  | destroyInit
  | destroyStart
  | destructorJoin
  | deleteEventLoop
  /-- The statements of `Main`. -/
  | newEventLoop
  | postInit
  | startWait
  /-- The `sem_wait` of `Main` returns. -/
  | started
  /-- `loop` finds `m_quit` set. -/
  | leaveLoop
  /-- Somebody else who has the event loop stops it. -/
  | quit
deriving DecidableEq

namespace IOThread

/-- What is done with a semaphore or an event loop that is not there is undefined. -/
def fail (thread : IOThread) : IOThread :=
  { thread with undefined := true }

/-- The IO thread has come past its `sem_wait`. -/
def Past (thread : IOThread) : Prop :=
  thread.main = .looping ∨ thread.main = .ended

instance (thread : IOThread) : Decidable thread.Past :=
  inferInstanceAs (Decidable (_ ∨ _))

/-- `sem_post` -/
def post : Option Nat → Option Nat :=
  Option.map (· + 1)

def step (thread : IOThread) : IOThreadEvent → Option IOThread
  | .construct =>
      if thread.owner = .outside then
        some { thread with
          owner := .creating, main := .entered, initSemaphore := some 0, startSemaphore := some 0 }
      else none
  | .created =>
      match thread.owner, thread.initSemaphore with
      | .creating, some (count + 1) =>
          some { thread with owner := .constructed, initSemaphore := some count }
      | _, _ => none
  | .start =>
      if thread.owner = .constructed then
        if thread.startSemaphore = none then some thread.fail
        else some { thread with startSemaphore := post thread.startSemaphore }
      else none
  | .join =>
      if thread.owner = .constructed then
        if thread.joined then some thread.fail
        else some { thread with owner := .joining }
      else none
  | .joinReturn =>
      if thread.owner = .joining ∧ thread.main = .ended then
        some { thread with owner := .constructed, joined := true }
      else none
  | .stop =>
      if thread.owner = .constructed then
        if thread.eventLoop = none then some thread.fail
        else some { thread with owner := .stopped, eventLoop := some true }
      else none
  | .destroyInit =>
      if thread.owner = .stopped then
        if thread.initSemaphore = none then some thread.fail
        else some { thread with owner := .initDestroyed, initSemaphore := none }
      else none
  | .destroyStart =>
      if thread.owner = .initDestroyed then
        if thread.startSemaphore = none ∨ thread.main = .waiting then some thread.fail
        else some { thread with owner := .startDestroyed, startSemaphore := none }
      else none
  | .destructorJoin =>
      if thread.owner = .startDestroyed then
        if thread.joined then some thread.fail
        else if thread.main = .ended then some { thread with owner := .joined, joined := true }
        else none
      else none
  | .deleteEventLoop =>
      if thread.owner = .joined then some { thread with owner := .destructed, eventLoop := none }
      else none
  | .newEventLoop =>
      if thread.main = .entered then some { thread with main := .created, eventLoop := some false }
      else none
  | .postInit =>
      if thread.main = .created then
        if thread.initSemaphore = none then some thread.fail
        else some { thread with main := .posted, initSemaphore := post thread.initSemaphore }
      else none
  | .startWait =>
      if thread.main = .posted then
        if thread.startSemaphore = none then some thread.fail
        else some { thread with main := .waiting }
      else none
  | .started =>
      match thread.main, thread.startSemaphore with
      | .waiting, some (count + 1) =>
          some { thread with main := .looping, startSemaphore := some count }
      | _, _ => none
  | .leaveLoop =>
      if thread.main = .looping then
        match thread.eventLoop with
        | none => some thread.fail
        | some true => some { thread with main := .ended }
        | some false => none
      else none
  | .quit =>
      if thread.owner = .constructed ∨ thread.owner = .joining then
        some { thread with eventLoop := thread.eventLoop.map fun _ => true }
      else none

end IOThread

/-- The two threads, in any order of steps. Nothing follows what is undefined. -/
def ioThreadSystem : Transition.System IOThread IOThreadEvent where
  Initial thread := thread = {}
  Step thread event next := thread.undefined = false ∧ thread.step event = some next

namespace IOThread

/-- The destructor can still come to its end. -/
def CanEnd (thread : IOThread) : Prop :=
  ∃ events final, ioThreadSystem.Run thread events final ∧ final.owner = .destructed

/-- `start` has been called. -/
def Started (thread : IOThread) : Prop :=
  thread.Past ∨ 0 < thread.startSemaphore.getD 0

instance (thread : IOThread) : Decidable thread.Started :=
  inferInstanceAs (Decidable (_ ∨ _))

/-- The owner destroys only what has been started, the semaphore only once the
thread is past it, and it leaves the joining to the destructor. -/
def InOrder (thread : IOThread) : IOThreadEvent → Prop
  | .join => False
  | .stop => thread.Started
  | .destroyStart => thread.Past
  | _ => True

end IOThread

/-- The thread is at its `sem_wait`, or past it. -/
inductive MainPoint.Behind : MainPoint → Bool → Prop
  | posted (quit : Bool) : Behind .posted quit
  | waiting (quit : Bool) : Behind .waiting quit
  | looping (quit : Bool) : Behind .looping quit
  | ended : Behind .ended true

/-- The thread is past its `sem_wait`, or comes past it by itself. -/
inductive MainPoint.Passing : MainPoint → Nat → Prop
  | posted {starts : Nat} (pending : 0 < starts) : Passing .posted starts
  | waiting {starts : Nat} (pending : 0 < starts) : Passing .waiting starts
  | looping (starts : Nat) : Passing .looping starts
  | ended (starts : Nat) : Passing .ended starts

namespace IOThread

/-- The states that the owner and the thread come to in order. -/
inductive Proper : IOThread → Prop
  | outside : Proper {}
  | entered : Proper ⟨.creating, .entered, none, some 0, some 0, false, false⟩
  | created : Proper ⟨.creating, .created, some false, some 0, some 0, false, false⟩
  | posted : Proper ⟨.creating, .posted, some false, some 1, some 0, false, false⟩
  | waiting : Proper ⟨.creating, .waiting, some false, some 1, some 0, false, false⟩
  | constructed {main : MainPoint} {quit : Bool} {starts : Nat} (behind : main.Behind quit) :
      Proper ⟨.constructed, main, some quit, some 0, some starts, false, false⟩
  | stopped {main : MainPoint} {starts : Nat} (passing : main.Passing starts) :
      Proper ⟨.stopped, main, some true, some 0, some starts, false, false⟩
  | initDestroyed {main : MainPoint} {starts : Nat} (passing : main.Passing starts) :
      Proper ⟨.initDestroyed, main, some true, none, some starts, false, false⟩
  | startDestroyed {main : MainPoint} (past : main = .looping ∨ main = .ended) :
      Proper ⟨.startDestroyed, main, some true, none, none, false, false⟩
  | joined : Proper ⟨.joined, .ended, some true, none, none, true, false⟩
  | destructed : Proper ⟨.destructed, .ended, none, none, none, true, false⟩

variable {thread next : IOThread} {event : IOThreadEvent}

theorem Proper.defined (proper : thread.Proper) : thread.undefined = false := by
  cases proper <;> rfl

theorem Started.passing {main : MainPoint} {quit : Bool} {starts : Nat}
    (started : (⟨.constructed, main, some quit, some 0, some starts, false, false⟩ :
      IOThread).Started) (behind : main.Behind quit) : main.Passing starts := by
  cases behind with
  | posted =>
      rcases started with (past | past) | pending
      · cases past
      · cases past
      · exact .posted pending
  | waiting =>
      rcases started with (past | past) | pending
      · cases past
      · cases past
      · exact .waiting pending
  | looping => exact .looping starts
  | ended => exact .ended starts

/-- What can happen once the constructor has returned. -/
theorem Proper.step_constructed {main : MainPoint} {quit : Bool} {starts : Nat}
    (behind : main.Behind quit)
    (stepped : step ⟨.constructed, main, some quit, some 0, some starts, false, false⟩ event =
      some next)
    (inOrder : InOrder ⟨.constructed, main, some quit, some 0, some starts, false, false⟩ event) :
    next.Proper := by
  cases event with
  | start =>
      cases stepped
      exact .constructed behind
  | join => exact inOrder.elim
  | stop =>
      cases stepped
      exact .stopped (inOrder.passing behind)
  | quit =>
      cases stepped
      cases behind with
      | posted => exact .constructed (.posted true)
      | waiting => exact .constructed (.waiting true)
      | looping => exact .constructed (.looping true)
      | ended => exact .constructed .ended
  | startWait =>
      cases behind <;> cases stepped
      exact .constructed (.waiting quit)
  | started =>
      cases behind <;> cases starts <;> cases stepped
      exact .constructed (.looping quit)
  | leaveLoop =>
      cases behind with
      | looping =>
          cases quit <;> cases stepped
          exact .constructed .ended
      | _ => cases stepped
  | _ => cases behind <;> cases stepped

/-- What can happen in the destructor, until it has destroyed the semaphores. -/
theorem Proper.step_stopped {main : MainPoint} {starts : Nat} (passing : main.Passing starts)
    (stepped : step ⟨.stopped, main, some true, some 0, some starts, false, false⟩ event =
      some next) : next.Proper := by
  cases event with
  | destroyInit =>
      cases stepped
      exact .initDestroyed passing
  | startWait =>
      cases passing <;> cases stepped
      exact .stopped (.waiting ‹_›)
  | started =>
      cases passing <;> cases starts <;> cases stepped
      exact .stopped (.looping _)
  | leaveLoop =>
      cases passing <;> cases stepped
      exact .stopped (.ended starts)
  | _ => cases passing <;> cases stepped

theorem Proper.step_initDestroyed {main : MainPoint} {starts : Nat}
    (passing : main.Passing starts)
    (stepped : step ⟨.initDestroyed, main, some true, none, some starts, false, false⟩ event =
      some next)
    (inOrder : InOrder ⟨.initDestroyed, main, some true, none, some starts, false, false⟩ event) :
    next.Proper := by
  cases event with
  | destroyStart =>
      rcases inOrder with rfl | rfl <;> cases stepped
      · exact .startDestroyed (.inl rfl)
      · exact .startDestroyed (.inr rfl)
  | startWait =>
      cases passing <;> cases stepped
      exact .initDestroyed (.waiting ‹_›)
  | started =>
      cases passing <;> cases starts <;> cases stepped
      exact .initDestroyed (.looping _)
  | leaveLoop =>
      cases passing <;> cases stepped
      exact .initDestroyed (.ended starts)
  | _ => cases passing <;> cases stepped

theorem Proper.step (proper : thread.Proper) (stepped : thread.step event = some next)
    (inOrder : thread.InOrder event) : next.Proper := by
  cases proper with
  | outside =>
      cases event <;> cases stepped
      exact .entered
  | entered =>
      cases event <;> cases stepped
      exact .created
  | created =>
      cases event <;> cases stepped
      exact .posted
  | posted =>
      cases event <;> cases stepped
      · exact .constructed (.posted false)
      · exact .waiting
  | waiting =>
      cases event <;> cases stepped
      exact .constructed (.waiting false)
  | constructed behind => exact step_constructed behind stepped inOrder
  | stopped passing => exact step_stopped passing stepped
  | initDestroyed passing => exact step_initDestroyed passing stepped inOrder
  | startDestroyed past =>
      rcases past with rfl | rfl
      · cases event <;> cases stepped
        exact .startDestroyed (.inr rfl)
      · cases event <;> cases stepped
        exact .joined
  | joined =>
      cases event <;> cases stepped
      exact .destructed
  | destructed => cases event <;> cases stepped

/-! ## The way to the end -/

end IOThread

/-- The statements still to come. -/
def OwnerPoint.left : OwnerPoint → Nat
  | .outside => 7
  | .creating => 6
  | .constructed | .joining => 5
  | .stopped => 4
  | .initDestroyed => 3
  | .startDestroyed => 2
  | .joined => 1
  | .destructed => 0

def MainPoint.left : MainPoint → Nat
  | .absent | .entered => 5
  | .created => 4
  | .posted => 3
  | .waiting => 2
  | .looping => 1
  | .ended => 0

namespace IOThread

/-- The steps that are at least needed. -/
def left (thread : IOThread) : Nat :=
  thread.owner.left + thread.main.left +
    if thread.Started then 0 else 1

/-- A step in order that comes closer to the end. -/
structure Advances (thread : IOThread) (event : IOThreadEvent) (next : IOThread) : Prop where
  step : thread.step event = some next
  inOrder : thread.InOrder event
  closer : next.left < thread.left

variable {thread : IOThread}

theorem exists_advances_constructed (main : MainPoint) (quit : Bool) (starts : Nat) :
    ∃ event next, Advances ⟨.constructed, main, some quit, some 0, some starts, false, false⟩
      event next := by
  by_cases started : Started ⟨.constructed, main, some quit, some 0, some starts, false, false⟩
  · refine ⟨.stop, _, rfl, started, ?_⟩
    exact Nat.add_lt_add_right (Nat.add_lt_add_right (Nat.lt_succ_self 4) main.left) _
  · refine ⟨.start, _, rfl, trivial, ?_⟩
    rw [left, left, if_pos (.inr (Nat.succ_pos starts)), if_neg started]
    exact Nat.lt_succ_self _

theorem exists_advances_initDestroyed {main : MainPoint} {starts : Nat}
    (passing : main.Passing starts) :
    ∃ event next, Advances ⟨.initDestroyed, main, some true, none, some starts, false, false⟩
      event next := by
  cases passing with
  | posted pending =>
      refine ⟨.startWait, _, rfl, trivial, ?_⟩
      rw [left, left, if_pos (.inr pending), if_pos (.inr pending)]
      exact Nat.lt_succ_self 5
  | waiting pending =>
      cases starts with
      | zero => cases pending
      | succ starts =>
          refine ⟨.started, _, rfl, trivial, ?_⟩
          rw [left, left, if_pos (.inl (.inl rfl)), if_pos (.inr pending)]
          exact Nat.lt_succ_self 4
  | looping =>
      refine ⟨.destroyStart, _, rfl, .inl rfl, ?_⟩
      rw [left, left, if_pos (.inl (.inl rfl)), if_pos (.inl (.inl rfl))]
      exact Nat.lt_succ_self 3
  | ended =>
      refine ⟨.destroyStart, _, rfl, .inr rfl, ?_⟩
      rw [left, left, if_pos (.inl (.inr rfl)), if_pos (.inl (.inr rfl))]
      exact Nat.lt_succ_self 2

theorem Proper.exists_advances (proper : thread.Proper) :
    thread.owner = .destructed ∨ ∃ event next, thread.Advances event next := by
  cases proper with
  | outside => exact .inr ⟨.construct, _, rfl, trivial, by decide⟩
  | entered => exact .inr ⟨.newEventLoop, _, rfl, trivial, by decide⟩
  | created => exact .inr ⟨.postInit, _, rfl, trivial, by decide⟩
  | posted | waiting => exact .inr ⟨.created, _, rfl, trivial, by decide⟩
  | constructed behind => exact .inr (exists_advances_constructed _ _ _)
  | stopped passing =>
      refine .inr ⟨.destroyInit, _, rfl, trivial, ?_⟩
      exact Nat.add_lt_add_right (Nat.add_lt_add_right (Nat.lt_succ_self 3) _) _
  | initDestroyed passing => exact .inr (exists_advances_initDestroyed passing)
  | startDestroyed past =>
      rcases past with rfl | rfl
      · exact .inr ⟨.leaveLoop, _, rfl, trivial, by decide⟩
      · exact .inr ⟨.destructorJoin, _, rfl, trivial, by decide⟩
  | joined => exact .inr ⟨.deleteEventLoop, _, rfl, trivial, by decide⟩
  | destructed => exact .inl rfl

theorem Proper.canEnd (proper : thread.Proper) : thread.CanEnd := by
  apply Transition.System.exists_run_of_measure left _ proper
  intro state proper
  rcases proper.exists_advances with there | ⟨event, next, advances⟩
  · exact .inl there
  · exact .inr ⟨event, next, ⟨proper.defined, advances.step⟩,
      proper.step advances.step advances.inOrder, advances.closer⟩

/-! ## Out of order -/

/-- What keeps the destructor from its end for good. -/
inductive Blocked (thread : IOThread) : Prop
  | undefined (broken : thread.undefined = true)
  | joining (joins : thread.owner = .joining)
  /-- The destructor will join once more. -/
  | joined (before : thread.joined = true) (notLast : thread.owner ≠ .joined)
  /-- The thread will not come past its `sem_wait`. -/
  | notStarted
      (destroys : thread.owner ∈ [.stopped, .initDestroyed, .startDestroyed])
      (notStarted : ¬thread.Started)

structure Stuck (thread : IOThread) : Prop where
  blocked : thread.Blocked
  notEnded : thread.owner ≠ .destructed

theorem Stuck.step (stuck : thread.Stuck) (isDefined : thread.undefined = false)
    (stepped : thread.step event = some next) : next.Stuck := by
  rcases thread with ⟨owner, main, eventLoop, initSemaphore, startSemaphore, joined, undefined⟩
  rcases stuck with ⟨blocked, notEnded⟩
  cases blocked with
  | undefined broken =>
      rw [broken] at isDefined
      cases isDefined
  | joining joins =>
      cases joins
      -- Only the return of `pthread_join` leads out of `join`.
      by_cases returns : event = .joinReturn
      · rw [returns, IOThread.step, Option.ite_none_right_eq_some] at stepped
        rcases stepped with ⟨_, ⟨⟩⟩
        exact ⟨.joined rfl nofun, nofun⟩
      · have joins : next.owner = .joining := by
          cases event <;> grind [IOThread.step, fail]
        exact ⟨.joining joins, by rw [joins]; nofun⟩
  | joined before notLast =>
      have stays : next.joined = true ∧ next.owner ≠ .joined ∧ next.owner ≠ .destructed := by
        cases event <;> grind [IOThread.step, fail]
      exact ⟨.joined stays.1 stays.2.1, stays.2.2⟩
  | notStarted destroys notStarted =>
      have stays : next.owner ∈ [.stopped, .initDestroyed, .startDestroyed] ∧ ¬next.Started := by
        cases event <;> grind [IOThread.step, fail, Past, Started]
      refine ⟨.notStarted stays.1 stays.2, fun ended => ?_⟩
      rw [ended] at stays
      exact absurd stays.1 (by decide)

theorem Stuck.not_canEnd (stuck : thread.Stuck) : ¬thread.CanEnd := by
  intro canEnd
  rcases canEnd with ⟨events, final, run, ended⟩
  have stays : final.Stuck := by
    apply run.preserves Stuck _ stuck
    intro current event next stuck step
    exact stuck.step step.1 step.2
  exact stays.notEnded ended

theorem Proper.stuck (proper : thread.Proper) (stepped : thread.step event = some next)
    (outOfOrder : ¬thread.InOrder event) : next.Stuck := by
  cases event with
  | join =>
      cases proper <;> cases stepped
      exact ⟨.joining rfl, nofun⟩
  | stop =>
      cases proper <;> cases stepped
      exact ⟨.notStarted (.head _) outOfOrder, nofun⟩
  | destroyStart =>
      cases proper with
      | initDestroyed passing =>
          cases passing with
          | posted pending =>
              cases stepped
              refine ⟨.notStarted (.tail _ (.tail _ (.head _))) ?_, nofun⟩
              rintro ((past | past) | more)
              · cases past
              · cases past
              · cases more
          | waiting pending =>
              cases stepped
              exact ⟨.undefined rfl, nofun⟩
          | looping => exact absurd (.inl rfl) outOfOrder
          | ended => exact absurd (.inr rfl) outOfOrder
      | _ => cases stepped
  | _ => exact absurd trivial outOfOrder

/-- From every state of a run the destructor can still come to its end, without
anything undefined, exactly if the run goes on in order. -/
theorem destructor_can_end_iff (events : List IOThreadEvent) :
    ioThreadSystem.Always CanEnd {} events ↔
      ioThreadSystem.EachStep (fun current event _ => current.InOrder event) {} events := by
  have either : ∀ thread : IOThread, thread.Proper ∨ thread.Stuck → thread.CanEnd →
      thread.Proper := by
    intro thread either canEnd
    rcases either with proper | stuck
    · exact proper
    · exact absurd canEnd stuck.not_canEnd
  have decided : ∀ current event next, current.Proper → ioThreadSystem.Step current event next →
      current.InOrder event ∧ next.Proper ∨ ¬current.InOrder event ∧ next.Stuck := by
    intro current event next proper step
    by_cases inOrder : current.InOrder event
    · exact .inl ⟨inOrder, proper.step step.2 inOrder⟩
    · exact .inr ⟨inOrder, proper.stuck step.2 inOrder⟩
  have preserved : ∀ current event next, current.Proper ∨ current.Stuck →
      ioThreadSystem.Step current event next → next.Proper ∨ next.Stuck := by
    intro current event next either step
    rcases either with proper | stuck
    · exact (decided current event next proper step).imp And.right And.right
    · exact .inr (stuck.step step.1 step.2)
  have canEnd_iff : ∀ current event next, current.Proper ∨ current.Stuck → current.CanEnd →
      ioThreadSystem.Step current event next → (next.CanEnd ↔ current.InOrder event) := by
    intro current event next inside canEnd step
    rcases decided current event next (either current inside canEnd) step with
      ⟨inOrder, proper⟩ | ⟨outOfOrder, stuck⟩
    · exact iff_of_true proper.canEnd inOrder
    · exact iff_of_false stuck.not_canEnd outOfOrder
  exact Transition.System.always_iff preserved canEnd_iff (.inl .outside) Proper.outside.canEnd
    events

end IOThread

end NetRpc
