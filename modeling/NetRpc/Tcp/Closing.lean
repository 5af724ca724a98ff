import NetRpc.EventLoop.Epoll
import NetRpc.Foundation.Transition
import NetRpc.Tcp.Client

/-! # Closing a server connection

`onRead` and `onWrite` look at the state before they do anything. `excute` and the
closures of deferred calls do not: they listen for writing on a closed connection.
-/

namespace NetRpc

/-- A server-side TcpConnection with the epoll bookkeeping of its loop. -/
structure ServedConnection where
  state : TcpState
  fdEvent : FdEvent
  epoll : Epoll
  /-- The tasks of `addEpollEvent` that other threads have put into the queue. -/
  queuedAdds : Nat

/-- What the loop of `onRead` ends with. -/
inductive ReadOutcome
  /-- Some bytes. While the requests in them are dispatched, this many services run
  their closures. -/
  | received (closures : Nat)
  | peerClosed
deriving DecidableEq

inductive ConnectionOperation
  | onRead (outcome : ReadOutcome)
  | onWrite (isWriteAll : Bool)
  | excute (closures : Nat)
  | clear
  /-- The closure of a deferred call calls `reply`. -/
  | reply (isInLoopThread : Bool)
  /-- The loop executes a queued task. -/
  | runQueued
deriving DecidableEq

namespace ServedConnection

def addEpollEvent (connection : ServedConnection) (isInLoopThread : Bool) :
    ServedConnection :=
  if isInLoopThread then
    { connection with epoll := connection.epoll.addEpollEvent connection.fdEvent }
  else
    { connection with queuedAdds := connection.queuedAdds + 1 }

def listenWrite (connection : ServedConnection) (isInLoopThread : Bool) :
    ServedConnection :=
  { connection with fdEvent := connection.fdEvent.listen .outEvent }.addEpollEvent isInLoopThread

/-- After the encoding. -/
def reply (connection : ServedConnection) (isInLoopThread : Bool) : ServedConnection :=
  connection.listenWrite isInLoopThread

/-- The server branch of `excute`, in which `closures` closures are run. -/
def excute : Nat → ServedConnection → ServedConnection
  | 0, connection => connection.listenWrite true
  | closures + 1, connection => excute closures (connection.reply true)

def clear (connection : ServedConnection) : ServedConnection :=
  if connection.state = .closed then connection
  else
    let fdEvent := (connection.fdEvent.cancle .inEvent).cancle .outEvent
    { connection with
      fdEvent
      epoll := connection.epoll.deleteEpollEvent fdEvent
      state := .closed }

def onRead (connection : ServedConnection) (outcome : ReadOutcome) : ServedConnection :=
  if connection.state ≠ .connected then connection
  else
    match outcome with
    | .received closures => connection.excute closures
    | .peerClosed => connection.clear

def onWrite (connection : ServedConnection) (isWriteAll : Bool) : ServedConnection :=
  if connection.state ≠ .connected then connection
  else if isWriteAll then
    { connection with fdEvent := connection.fdEvent.cancle .outEvent }.addEpollEvent true
  else connection

def dequeue (connection : ServedConnection) : ServedConnection :=
  { connection with queuedAdds := connection.queuedAdds - 1 }

def step (connection : ServedConnection) : ConnectionOperation → Option ServedConnection
  | .onRead outcome => some (connection.onRead outcome)
  | .onWrite isWriteAll => some (connection.onWrite isWriteAll)
  | .excute closures => some (connection.excute closures)
  | .clear => some connection.clear
  | .reply isInLoopThread => some (connection.reply isInLoopThread)
  | .runQueued =>
      if connection.queuedAdds = 0 then none
      else some (connection.dequeue.addEpollEvent true)

/-- The descriptor is open, and the bookkeeping of the loop is right. -/
structure Watched (connection : ServedConnection) : Prop where
  inSync : connection.epoll.InSync
  openOnly : connection.epoll.kernel.OpenOnly
  isOpen : connection.fdEvent.fd ∈ connection.epoll.kernel.descriptors

def InInterestSet (connection : ServedConnection) : Prop :=
  (connection.epoll.kernel.interest connection.fdEvent.fd).isSome

/-- A closed connection is not in the interest set. -/
def StaysOut (connection : ServedConnection) : Prop :=
  connection.state = .closed → ¬connection.InInterestSet

def StaysClosed (current : ServedConnection) (_ : ConnectionOperation)
    (next : ServedConnection) : Prop :=
  current.state = .closed → next.state = .closed

/-- A closed connection is left alone by those who do not look at the state. -/
def RespectsClosed (connection : ServedConnection) : ConnectionOperation → Prop
  | .excute _ | .reply true | .runQueued => connection.state ≠ .closed
  | _ => True

theorem Watched.addEpollEvent {connection : ServedConnection} (watched : connection.Watched) :
    (connection.addEpollEvent true).Watched ∧
      (connection.addEpollEvent true).InInterestSet := by
  have inSync := (Epoll.addEpollEvent_inSync_iff watched.openOnly watched.inSync
    connection.fdEvent).mpr watched.isOpen
  refine ⟨⟨inSync, Epoll.addEpollEvent_openOnly watched.openOnly _, ?_⟩, ?_⟩
  · rw [ServedConnection.addEpollEvent, if_pos rfl, Epoll.addEpollEvent_descriptors]
    exact watched.isOpen
  · exact (inSync.mirrors _).mp (Finset.mem_insert_self ..)

@[simp]
theorem addEpollEvent_state (connection : ServedConnection) (isInLoopThread : Bool) :
    (connection.addEpollEvent isInLoopThread).state = connection.state := by
  cases isInLoopThread <;> rfl

/-- Other events of the same descriptor. -/
theorem Watched.changed {connection : ServedConnection} (watched : connection.Watched)
    {fdEvent : FdEvent} (sameFd : fdEvent.fd = connection.fdEvent.fd) :
    { connection with fdEvent }.Watched := by
  refine ⟨watched.inSync, watched.openOnly, ?_⟩
  rw [sameFd]
  exact watched.isOpen

theorem Watched.listenWrite {connection : ServedConnection} (watched : connection.Watched) :
    (connection.listenWrite true).Watched ∧ (connection.listenWrite true).InInterestSet := by
  have changed := watched.changed (FdEvent.listen_fd connection.fdEvent .outEvent)
  exact changed.addEpollEvent

@[simp]
theorem excute_state (connection : ServedConnection) (closures : Nat) :
    (connection.excute closures).state = connection.state := by
  induction closures generalizing connection with
  | zero => exact addEpollEvent_state _ true
  | succ closures induction => exact (induction _).trans (addEpollEvent_state _ true)

theorem Watched.excute {connection : ServedConnection} (watched : connection.Watched)
    (closures : Nat) :
    (connection.excute closures).Watched ∧ (connection.excute closures).InInterestSet := by
  induction closures generalizing connection with
  | zero => exact watched.listenWrite
  | succ closures induction => exact induction watched.listenWrite.1

theorem Watched.clear {connection : ServedConnection} (watched : connection.Watched) :
    connection.clear.Watched := by
  rw [ServedConnection.clear]
  split
  · exact watched
  · refine ⟨Epoll.deleteEpollEvent_inSync watched.openOnly watched.inSync _,
      Epoll.deleteEpollEvent_openOnly watched.openOnly _, ?_⟩
    rw [Epoll.deleteEpollEvent_descriptors, FdEvent.cancle_fd, FdEvent.cancle_fd]
    exact watched.isOpen

theorem clear_state (connection : ServedConnection) : connection.clear.state = .closed := by
  rw [clear]
  split
  · assumption
  · rfl

/-- `clear` takes the descriptor out of the interest set. -/
theorem clear_staysOut {connection : ServedConnection} (watched : connection.Watched)
    (staysOut : connection.StaysOut) : connection.clear.StaysOut := by
  rw [clear]
  split
  · exact staysOut
  · intro _ present
    have after := Epoll.deleteEpollEvent_inSync watched.openOnly watched.inSync
      ((connection.fdEvent.cancle .inEvent).cancle .outEvent)
    have listed := (after.mirrors _).mpr present
    exact (Epoll.mem_deleteEpollEvent_listenFds ..).mp listed |>.1 rfl

/-- Adding the descriptor is right for a connection that is not closed. -/
theorem staysOut_iff_of_added {connection next : ServedConnection}
    (sameState : next.state = connection.state) (present : next.InInterestSet) :
    next.StaysOut ↔ connection.state ≠ .closed := by
  rw [StaysOut, sameState]
  constructor
  · exact fun staysOut closed => staysOut closed present
  · exact fun notClosed closed => absurd closed notClosed

theorem staysOut_of_connected {next : ServedConnection} (connected : next.state = .connected) :
    next.StaysOut := by
  intro closed
  rw [connected] at closed
  cases closed

theorem Watched.dequeue {connection : ServedConnection} (watched : connection.Watched) :
    connection.dequeue.Watched :=
  ⟨watched.inSync, watched.openOnly, watched.isOpen⟩

theorem Watched.onRead {connection : ServedConnection} (watched : connection.Watched)
    (outcome : ReadOutcome) : (connection.onRead outcome).Watched := by
  cases outcome with
  | received closures =>
      rw [ServedConnection.onRead]
      split
      · exact watched
      · exact (watched.excute closures).1
  | peerClosed =>
      rw [ServedConnection.onRead]
      split
      · exact watched
      · exact watched.clear

theorem Watched.onWrite {connection : ServedConnection} (watched : connection.Watched)
    (isWriteAll : Bool) : (connection.onWrite isWriteAll).Watched := by
  rw [ServedConnection.onWrite]
  split
  · exact watched
  · split
    · have changed := watched.changed (FdEvent.cancle_fd connection.fdEvent .outEvent)
      exact changed.addEpollEvent.1
    · exact watched

theorem step_watched {connection next : ServedConnection} {operation : ConnectionOperation}
    (watched : connection.Watched) (stepped : connection.step operation = some next) :
    next.Watched := by
  cases operation with
  | onRead outcome =>
      cases stepped
      exact watched.onRead outcome
  | onWrite isWriteAll =>
      cases stepped
      exact watched.onWrite isWriteAll
  | excute closures =>
      cases stepped
      exact (watched.excute closures).1
  | clear =>
      cases stepped
      exact watched.clear
  | reply isInLoopThread =>
      cases stepped
      cases isInLoopThread with
      | true => exact watched.listenWrite.1
      | false =>
          have changed := watched.changed (FdEvent.listen_fd connection.fdEvent .outEvent)
          exact ⟨changed.inSync, changed.openOnly, changed.isOpen⟩
  | runQueued =>
      rw [step, Option.ite_none_left_eq_some] at stepped
      cases stepped.2
      exact watched.dequeue.addEpollEvent.1

theorem onRead_staysOut {connection : ServedConnection} (watched : connection.Watched)
    (staysOut : connection.StaysOut) (outcome : ReadOutcome) :
    (connection.onRead outcome).StaysOut := by
  cases outcome with
  | received closures =>
      rw [onRead]
      split
      case isTrue => exact staysOut
      case isFalse isConnected =>
        rw [ne_eq, not_not] at isConnected
        exact staysOut_of_connected ((excute_state ..).trans isConnected)
  | peerClosed =>
      rw [onRead]
      split
      · exact staysOut
      · exact clear_staysOut watched staysOut

theorem onWrite_staysOut {connection : ServedConnection} (staysOut : connection.StaysOut)
    (isWriteAll : Bool) : (connection.onWrite isWriteAll).StaysOut := by
  rw [onWrite]
  split
  case isTrue => exact staysOut
  case isFalse isConnected =>
    rw [ne_eq, not_not] at isConnected
    split
    · exact staysOut_of_connected ((addEpollEvent_state _ true).trans isConnected)
    · exact staysOut

theorem step_staysOut_iff {connection next : ServedConnection}
    {operation : ConnectionOperation} (watched : connection.Watched)
    (staysOut : connection.StaysOut) (stepped : connection.step operation = some next) :
    next.StaysOut ↔ connection.RespectsClosed operation := by
  cases operation with
  | onRead outcome =>
      cases stepped
      exact iff_of_true (onRead_staysOut watched staysOut outcome) trivial
  | onWrite isWriteAll =>
      cases stepped
      exact iff_of_true (onWrite_staysOut staysOut isWriteAll) trivial
  | excute closures =>
      cases stepped
      exact staysOut_iff_of_added (excute_state ..) (watched.excute closures).2
  | clear =>
      cases stepped
      exact iff_of_true (clear_staysOut watched staysOut) trivial
  | reply isInLoopThread =>
      cases stepped
      cases isInLoopThread with
      | true => exact staysOut_iff_of_added (addEpollEvent_state _ true) watched.listenWrite.2
      | false =>
          refine iff_of_true (fun closed present => staysOut closed ?_) trivial
          change ((connection.epoll.kernel.interest (connection.fdEvent.listen .outEvent).fd).isSome
            : Prop) at present
          rw [FdEvent.listen_fd] at present
          exact present
  | runQueued =>
      rw [step, Option.ite_none_left_eq_some] at stepped
      cases stepped.2
      exact staysOut_iff_of_added (addEpollEvent_state _ true) watched.dequeue.addEpollEvent.2

/-- No operation leads out of `Closed`. -/
theorem step_staysClosed {connection next : ServedConnection}
    {operation : ConnectionOperation} (stepped : connection.step operation = some next) :
    connection.StaysClosed operation next := by
  intro closed
  have notConnected : connection.state ≠ .connected := by
    rw [closed]
    decide
  cases operation with
  | onRead outcome =>
      cases stepped
      cases outcome <;> rw [onRead, if_pos notConnected] <;> exact closed
  | onWrite isWriteAll =>
      cases stepped
      rw [onWrite, if_pos notConnected]
      exact closed
  | excute closures =>
      cases stepped
      exact (excute_state ..).trans closed
  | clear =>
      cases stepped
      exact connection.clear_state
  | reply isInLoopThread =>
      cases stepped
      exact (addEpollEvent_state _ isInLoopThread).trans closed
  | runQueued =>
      rw [step, Option.ite_none_left_eq_some] at stepped
      cases stepped.2
      exact (addEpollEvent_state _ true).trans closed

end ServedConnection

def closingSystem : Transition.System ServedConnection ConnectionOperation where
  Initial connection := connection.Watched ∧ connection.state ≠ .closed
  Step connection operation next := connection.step operation = some next

namespace ServedConnection

/-- A closed connection stays closed, and it stays out of the interest set exactly
where nothing that does not look at the state comes after the closing. -/
theorem closed_final_iff {connection : ServedConnection}
    (initial : closingSystem.Initial connection) (operations : List ConnectionOperation) :
    (closingSystem.Always StaysOut connection operations ∧
        closingSystem.EachStep StaysClosed connection operations) ↔
      closingSystem.EachStep (fun current operation _ => current.RespectsClosed operation)
        connection operations := by
  have always_iff := Transition.System.always_iff
    (fun current operation next watched (stepped : closingSystem.Step current operation next) =>
      step_watched watched stepped)
    (fun current operation next watched staysOut stepped =>
      step_staysOut_iff watched staysOut stepped)
    initial.1 (fun closed => absurd closed initial.2) operations
  have staysClosed : closingSystem.EachStep StaysClosed connection operations :=
    fun _ _ _ _ _ _ stepped => step_staysClosed stepped
  rw [always_iff]
  exact and_iff_left staysClosed

/-- A connection as `onAccept` leaves it. The constructor, on another thread, has put
the first `addEpollEvent` into the queue. -/
def accepted : ServedConnection where
  state := .connected
  fdEvent := { fd := 7, listenEvents := { epollIn := true } }
  epoll := {
    listenFds := ∅
    kernel := { descriptors := {7}, interest := fun _ => none }
    rejected := [] }
  queuedAdds := 1

theorem accepted_initial : closingSystem.Initial accepted := by
  refine ⟨⟨⟨fun fd => ?_, rfl⟩, fun fd present => ?_, by decide⟩, by decide⟩
  · exact iff_of_false (Finset.notMem_empty fd) Bool.false_ne_true
  · cases present

/-- A request comes in and its service keeps the closure. The peer closes, and the
service runs the closure. -/
def lateReply : List ConnectionOperation :=
  [.runQueued, .onRead (.received 0), .onRead .peerClosed, .reply true]

theorem closed_final_iff_lateReply :
    (closingSystem.Always StaysOut accepted lateReply ∧
        closingSystem.EachStep StaysClosed accepted lateReply) ↔
      closingSystem.EachStep (fun current operation _ => current.RespectsClosed operation)
        accepted lateReply :=
  closed_final_iff accepted_initial lateReply

/-- The late reply puts the descriptor of the closed connection back, for writing. -/
theorem closed_not_final :
    closingSystem.Initial accepted ∧
      ∃ connection, closingSystem.Run accepted lateReply connection ∧
        ¬connection.StaysOut ∧ connection.state = .closed ∧
        connection.epoll.kernel.interest connection.fdEvent.fd =
          some { epollIn := false, epollOut := true } := by
  have computed : (lateReply.foldlM step accepted).map
      (fun connection => (connection.state,
        connection.epoll.kernel.interest connection.fdEvent.fd)) =
          some (.closed, some { epollIn := false, epollOut := true }) := by
    decide +kernel
  rcases @Transition.System.Run.of_observed _ _ _ closingSystem _
    (fun _ _ _ stepped => stepped) _ _ _ _ computed with ⟨connection, run, facts⟩
  rw [Prod.mk.injEq] at facts
  refine ⟨accepted_initial, connection, run, fun staysOut => ?_, facts⟩
  apply staysOut facts.1
  rw [InInterestSet, facts.2]
  rfl

end ServedConnection

end NetRpc
