import NetRpc.EventLoop.Epoll
import NetRpc.Foundation.Transition
import NetRpc.Tcp.Client

/-! # The descriptors of the clients of an event loop

A TcpClient keeps the FdEvent of its first descriptor for good. Its destructor
and a failed `connect` close its descriptor without a deletion before.
-/

namespace NetRpc

/-- What a TcpClient and its connection hold of descriptors. -/
structure ClientSocket where
  fd : Int
  /-- `m_fd_event` of the client and of its connection. Where `socket` failed, the
  client has neither of them. -/
  fdEvent : Option Int
  state : TcpState := .notConnected
  /-- `connect` has registered its callback. A copy of it may be queued even after
  `listenWrite` has registered another one. -/
  connecting : Bool := false
deriving DecidableEq

/-- An event loop with its clients, which are known by the addresses of their
objects. -/
structure ClientLoop where
  epoll : Epoll
  fdEvents : FdEventGroup
  clients : Nat → Option ClientSocket

/-- What the first `::connect` answers. -/
inductive ConnectAnswer
  | connected
  | inProgress
  | failed
deriving DecidableEq

/-- What the second `::connect` answers and, where it fails, what the next `socket`
returns. -/
inductive ConnectCompletion
  | connected
  | failed (reopened : Int)
deriving DecidableEq

inductive ClientOperation
  /-- The constructor, whose `socket` returns `fd`. -/
  | construct (client : Nat) (fd : Int)
  | connect (client : Nat) (answer : ConnectAnswer)
  /-- The callback that `connect` has registered. -/
  | onWritable (client : Nat) (completion : ConnectCompletion)
  /-- `listenRead` or `listenWrite`. -/
  | listen (client : Nat) (trigger : TriggerEvent)
  | onWrite (client : Nat) (isWriteAll : Bool)
  | clear (client : Nat)
  /-- The destructor. -/
  | destroy (client : Nat)
  /-- `epoll_wait` reports `EPOLLERR` for a descriptor. -/
  | pollError (fd : Int)
deriving DecidableEq

namespace ClientLoop

def setClient (loop : ClientLoop) (client : Nat) (socket : Option ClientSocket) :
    ClientLoop :=
  { loop with clients := Function.update loop.clients client socket }

/-- `addEpollEvent` for an FdEvent that has just been changed. -/
def addEpollEvent (loop : ClientLoop) (event : FdEvent) : ClientLoop :=
  { loop with
    fdEvents := loop.fdEvents.store event
    epoll := loop.epoll.addEpollEvent event }

def deleteEpollEvent (loop : ClientLoop) (event : FdEvent) : ClientLoop :=
  { loop with
    fdEvents := loop.fdEvents.store event
    epoll := loop.epoll.deleteEpollEvent event }

def construct (loop : ClientLoop) (client : Nat) (fd : Int) : Option ClientLoop :=
  if fd < 0 then
    some (loop.setClient client (some { fd, fdEvent := none }))
  else do
    let fdEvents ← loop.fdEvents.getFdEvent fd
    let opened := { loop with fdEvents, epoll := loop.epoll.opened fd }
    some (opened.setClient client (some { fd, fdEvent := some fd }))

def connect (loop : ClientLoop) (client : Nat) (socket : ClientSocket) (fdEvent : Int) :
    ConnectAnswer → ClientLoop
  | .connected => loop.setClient client (some { socket with state := .connected })
  | .inProgress =>
      let listening := loop.addEpollEvent ((loop.fdEvents.event fdEvent).listen .outEvent)
      listening.setClient client (some { socket with connecting := true })
  | .failed => loop

def onWritable (loop : ClientLoop) (client : Nat) (socket : ClientSocket) (fdEvent : Int) :
    ConnectCompletion → Option ClientLoop
  | .connected =>
      let connected := loop.setClient client (some { socket with state := .connected })
      some (connected.deleteEpollEvent (loop.fdEvents.event fdEvent))
  | .failed reopened => do
      let closed := loop.epoll.close socket.fd
      guard (reopened ∉ closed.kernel.descriptors)
      let failed := { loop with epoll := closed.opened reopened }.setClient client
        (some { socket with fd := reopened })
      some (failed.deleteEpollEvent (loop.fdEvents.event fdEvent))

def onWrite (loop : ClientLoop) (socket : ClientSocket) (fdEvent : Int) (isWriteAll : Bool) :
    ClientLoop :=
  if socket.state ≠ .connected then loop
  else if isWriteAll then loop.addEpollEvent ((loop.fdEvents.event fdEvent).cancle .outEvent)
  else loop

def clear (loop : ClientLoop) (client : Nat) (socket : ClientSocket) (fdEvent : Int) :
    ClientLoop :=
  if socket.state = .closed then loop
  else
    let event := ((loop.fdEvents.event fdEvent).cancle .inEvent).cancle .outEvent
    (loop.deleteEpollEvent event).setClient client (some { socket with state := .closed })

def destroy (loop : ClientLoop) (client : Nat) (socket : ClientSocket) : ClientLoop :=
  let closed := if 0 < socket.fd then { loop with epoll := loop.epoll.close socket.fd } else loop
  closed.setClient client none

/-- One operation, `none` where it is not possible. The kernel may hand out any
number that is not open. -/
def step (loop : ClientLoop) : ClientOperation → Option ClientLoop
  | .construct client fd => do
      guard (loop.clients client = none ∧ fd ∉ loop.epoll.kernel.descriptors)
      loop.construct client fd
  | .connect client .failed => do
      let _ ← loop.clients client
      some loop
  | .connect client answer => do
      let socket ← loop.clients client
      let fdEvent ← socket.fdEvent
      some (loop.connect client socket fdEvent answer)
  | .onWritable client completion => do
      let socket ← loop.clients client
      let fdEvent ← socket.fdEvent
      guard socket.connecting
      loop.onWritable client socket fdEvent completion
  | .listen client trigger => do
      let socket ← loop.clients client
      let fdEvent ← socket.fdEvent
      some (loop.addEpollEvent ((loop.fdEvents.event fdEvent).listen trigger))
  | .onWrite client isWriteAll => do
      let socket ← loop.clients client
      let fdEvent ← socket.fdEvent
      some (loop.onWrite socket fdEvent isWriteAll)
  | .clear client => do
      let socket ← loop.clients client
      let fdEvent ← socket.fdEvent
      some (loop.clear client socket fdEvent)
  | .destroy client => do
      let socket ← loop.clients client
      some (loop.destroy client socket)
  | .pollError fd => some (loop.deleteEpollEvent (loop.fdEvents.event fd))

/-- The step does not open a gap between `m_listen_fds` and the interest set: a
descriptor is open when it is added, and it is not in the interest set when it is
closed, unless the deletion that follows a failed `connect` is its own. -/
def Careful (loop : ClientLoop) : ClientOperation → Prop
  | .connect client .inProgress | .listen client _ =>
      ∀ socket ∈ loop.clients client, ∀ fdEvent ∈ socket.fdEvent,
        fdEvent ∈ loop.epoll.kernel.descriptors
  | .onWrite client true =>
      ∀ socket ∈ loop.clients client, ∀ fdEvent ∈ socket.fdEvent,
        socket.state = .connected → fdEvent ∈ loop.epoll.kernel.descriptors
  | .onWritable client (.failed _) =>
      ∀ socket ∈ loop.clients client, ∀ fdEvent ∈ socket.fdEvent,
        socket.fd = fdEvent ∨ loop.epoll.kernel.interest socket.fd = none
  | .destroy client =>
      ∀ socket ∈ loop.clients client,
        0 < socket.fd → loop.epoll.kernel.interest socket.fd = none
  | _ => True

end ClientLoop

namespace ClientLoop

theorem construct_epoll {loop next : ClientLoop} {client : Nat} {fd : Int}
    (stepped : loop.construct client fd = some next) :
    ∃ effect : EpollEffect, next.epoll = effect.apply loop.epoll ∧
      effect.Careful loop.epoll.kernel := by
  rw [construct] at stepped
  split at stepped
  · cases stepped
    exact ⟨.none, rfl, trivial⟩
  · simp only [Option.bind_eq_bind, Option.bind_eq_some_iff, Option.some.injEq] at stepped
    rcases stepped with ⟨fdEvents, _, rfl⟩
    exact ⟨.opened fd, rfl, trivial⟩

theorem connect_epoll {loop next : ClientLoop} {client : Nat} {answer : ConnectAnswer}
    (stepped : loop.step (.connect client answer) = some next) :
    ∃ effect : EpollEffect, next.epoll = effect.apply loop.epoll ∧
      (effect.Careful loop.epoll.kernel ↔ loop.Careful (.connect client answer)) := by
  cases answer with
  | failed =>
      simp only [step, Option.bind_eq_bind, Option.bind_eq_some_iff,
        Option.some.injEq] at stepped
      rcases stepped with ⟨_, _, rfl⟩
      exact ⟨.none, rfl, Iff.rfl⟩
  | connected =>
      simp only [step, Option.bind_eq_bind, Option.bind_eq_some_iff,
        Option.some.injEq] at stepped
      rcases stepped with ⟨socket, _, fdEvent, _, rfl⟩
      exact ⟨.none, rfl, Iff.rfl⟩
  | inProgress =>
      simp only [step, Option.bind_eq_bind, Option.bind_eq_some_iff,
        Option.some.injEq] at stepped
      rcases stepped with ⟨socket, isClient, fdEvent, hasEvent, rfl⟩
      refine ⟨.add ((loop.fdEvents.event fdEvent).listen .outEvent), rfl, ?_⟩
      simp [Careful, EpollEffect.Careful, isClient, hasEvent, FdEventGroup.event]

theorem onWrite_epoll {loop next : ClientLoop} {client : Nat} {isWriteAll : Bool}
    (stepped : loop.step (.onWrite client isWriteAll) = some next) :
    ∃ effect : EpollEffect, next.epoll = effect.apply loop.epoll ∧
      (effect.Careful loop.epoll.kernel ↔ loop.Careful (.onWrite client isWriteAll)) := by
  simp only [step, Option.bind_eq_bind, Option.bind_eq_some_iff, Option.some.injEq] at stepped
  rcases stepped with ⟨socket, isClient, fdEvent, hasEvent, rfl⟩
  rw [onWrite]
  split
  case isTrue notConnected =>
    refine ⟨.none, rfl, ?_⟩
    cases isWriteAll <;>
      simp [Careful, EpollEffect.Careful, isClient, hasEvent, notConnected]
  case isFalse isConnected =>
    rw [ne_eq, not_not] at isConnected
    cases isWriteAll with
    | false => exact ⟨.none, rfl, Iff.rfl⟩
    | true =>
        refine ⟨.add ((loop.fdEvents.event fdEvent).cancle .outEvent), rfl, ?_⟩
        simp [Careful, EpollEffect.Careful, isClient, hasEvent, isConnected,
          FdEventGroup.event]

/-- What each operation does to the bookkeeping, and when that is careful. -/
theorem step_epoll {loop next : ClientLoop} {operation : ClientOperation}
    (stepped : loop.step operation = some next) :
    ∃ effect : EpollEffect, next.epoll = effect.apply loop.epoll ∧
      (effect.Careful loop.epoll.kernel ↔ loop.Careful operation) := by
  cases operation with
  | construct client fd =>
      simp only [step, Option.bind_eq_bind, Option.bind_eq_some_iff] at stepped
      rcases stepped with ⟨_, _, constructed⟩
      rcases construct_epoll constructed with ⟨effect, after, careful⟩
      exact ⟨effect, after, iff_of_true careful trivial⟩
  | connect client answer => exact connect_epoll stepped
  | onWritable client completion =>
      simp only [step, Option.bind_eq_bind, Option.bind_eq_some_iff] at stepped
      rcases stepped with ⟨socket, isClient, fdEvent, hasEvent, _, _, completed⟩
      cases completion with
      | connected =>
          cases completed
          exact ⟨.delete (loop.fdEvents.event fdEvent), rfl, Iff.rfl⟩
      | failed reopened =>
          simp only [onWritable, Option.bind_eq_bind, Option.bind_eq_some_iff,
            Option.some.injEq] at completed
          rcases completed with ⟨_, _, rfl⟩
          refine ⟨.reopen socket.fd reopened (loop.fdEvents.event fdEvent), rfl, ?_⟩
          simp [Careful, EpollEffect.Careful, isClient, hasEvent, FdEventGroup.event]
  | listen client trigger =>
      simp only [step, Option.bind_eq_bind, Option.bind_eq_some_iff, Option.some.injEq] at stepped
      rcases stepped with ⟨socket, isClient, fdEvent, hasEvent, rfl⟩
      refine ⟨.add ((loop.fdEvents.event fdEvent).listen trigger), rfl, ?_⟩
      simp [Careful, EpollEffect.Careful, isClient, hasEvent, FdEventGroup.event]
  | onWrite client isWriteAll => exact onWrite_epoll stepped
  | clear client =>
      simp only [step, Option.bind_eq_bind, Option.bind_eq_some_iff, Option.some.injEq] at stepped
      rcases stepped with ⟨socket, _, fdEvent, _, rfl⟩
      rw [clear]
      split
      · exact ⟨.none, rfl, Iff.rfl⟩
      · exact ⟨.delete (((loop.fdEvents.event fdEvent).cancle .inEvent).cancle .outEvent), rfl,
          Iff.rfl⟩
  | destroy client =>
      simp only [step, Option.bind_eq_bind, Option.bind_eq_some_iff, Option.some.injEq] at stepped
      rcases stepped with ⟨socket, isClient, rfl⟩
      rw [destroy]
      split
      case isTrue positive =>
        refine ⟨.close socket.fd, rfl, ?_⟩
        simp [Careful, EpollEffect.Careful, isClient, positive]
      case isFalse notPositive =>
        refine ⟨.none, rfl, ?_⟩
        simp [Careful, EpollEffect.Careful, isClient, notPositive]
  | pollError fd =>
      cases stepped
      exact ⟨.delete (loop.fdEvents.event fd), rfl, Iff.rfl⟩

end ClientLoop

def clientSystem : Transition.System ClientLoop ClientOperation where
  Initial loop :=
    loop.epoll.InSync ∧ loop.epoll.kernel.OpenOnly ∧ loop.clients = fun _ => none
  Step loop operation next := loop.step operation = some next

/-- `m_listen_fds` mirrors the interest set after every step, and every
`addEpollEvent` picks an operation that succeeds, exactly where all steps are
careful. -/
theorem epoll_mirrors_iff {loop : ClientLoop} (initial : clientSystem.Initial loop)
    (operations : List ClientOperation) :
    clientSystem.Always (fun loop => loop.epoll.InSync) loop operations ↔
      clientSystem.EachStep (fun loop operation _ => loop.Careful operation) loop operations := by
  have preserved : ∀ current operation next, current.epoll.kernel.OpenOnly →
      clientSystem.Step current operation next → next.epoll.kernel.OpenOnly := by
    intro current operation next openOnly stepped
    rcases ClientLoop.step_epoll stepped with ⟨effect, after, _⟩
    rw [after]
    exact effect.apply_openOnly openOnly
  have keeps_iff : ∀ current operation next, current.epoll.kernel.OpenOnly →
      current.epoll.InSync → clientSystem.Step current operation next →
      (next.epoll.InSync ↔ current.Careful operation) := by
    intro current operation next openOnly inSync stepped
    rcases ClientLoop.step_epoll stepped with ⟨effect, after, careful⟩
    rw [after]
    exact (effect.apply_inSync_iff openOnly inSync).trans careful
  exact Transition.System.always_iff preserved keeps_iff initial.2.1 initial.1 operations

/-- A loop as its constructor leaves it: the descriptors 4 and 5 are those of the
wakeup event and of the timer. -/
def freshLoop : ClientLoop where
  epoll := {
    listenFds := {4, 5}
    kernel := {
      descriptors := {0, 1, 2, 3, 4, 5}
      interest := fun fd => if fd = 4 ∨ fd = 5 then some { epollIn := true } else none }
    rejected := [] }
  fdEvents := .new 128
  clients := fun _ => none

theorem freshLoop_initial : clientSystem.Initial freshLoop := by
  refine ⟨⟨fun fd => ?_, rfl⟩, fun fd present => ?_, rfl⟩
  · simp [freshLoop]
  · simp [freshLoop] at present ⊢
    omega

/-- A client connects and listens, it is destroyed, and its descriptor comes back
for another client. -/
def recycledNumber : List ClientOperation :=
  [.construct 0 6, .connect 0 .inProgress, .onWritable 0 .connected, .listen 0 .outEvent,
    .destroy 0, .construct 1 6, .connect 1 .inProgress]

theorem epoll_mirrors_iff_recycled :
    clientSystem.Always (fun loop => loop.epoll.InSync) freshLoop recycledNumber ↔
      clientSystem.EachStep (fun loop operation _ => loop.Careful operation)
        freshLoop recycledNumber :=
  epoll_mirrors_iff freshLoop_initial recycledNumber

/-- The second client's descriptor is taken for a member of the interest set, and
`EPOLL_CTL_MOD` fails for it. -/
theorem epoll_not_mirrored :
    clientSystem.Initial freshLoop ∧
      ∃ loop, clientSystem.Run freshLoop recycledNumber loop ∧ ¬loop.epoll.InSync ∧
        loop.epoll.kernel.interest 6 = none ∧ loop.epoll.rejected = [6] := by
  have computed : (recycledNumber.foldlM ClientLoop.step freshLoop).map
      (fun loop => (loop.epoll.kernel.interest 6, loop.epoll.rejected)) = some (none, [6]) := by
    decide +kernel
  rcases @Transition.System.Run.of_observed _ _ _ clientSystem _
    (fun _ _ _ stepped => stepped) _ _ _ _ computed with ⟨loop, run, facts⟩
  rw [Prod.mk.injEq] at facts
  refine ⟨freshLoop_initial, loop, run, fun inSync => ?_, facts⟩
  rw [inSync.accepted] at facts
  cases facts.2

end NetRpc
