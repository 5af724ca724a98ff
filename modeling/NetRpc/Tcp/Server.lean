import Mathlib.Data.Finset.Insert
import NetRpc.EventLoop.FdEvent
import NetRpc.Foundation.Transition
import NetRpc.Tcp.Client

/-! # The connections of a TcpServer

A descriptor is taken in `onAccept`. Neither `clear` nor the sweep nor the
destructor of the connection gives it back, and nothing lowers the count.
-/

namespace NetRpc

/-- A TcpConnection of the server, known by the address of the object. -/
structure AcceptedConnection where
  address : Nat
  fd : Int
  state : TcpState
deriving DecidableEq

structure TcpServer where
  fdEvents : FdEventGroup
  /-- The client descriptors that are open. -/
  descriptors : Finset Int
  /-- `m_client`. -/
  clients : List AcceptedConnection
  clientCounts : Int
  /-- `m_fd_group` has been read outside of its bounds. -/
  undefined : Bool := false

inductive TcpServerEvent
  /-- `accept` returns `fd`, which is negative where it fails, and the connection
  would be made at `address`. -/
  | accept (address : Nat) (fd : Int)
  /-- `onRead` of a connection finds that the peer has closed. -/
  | peerClosed (address : Nat)
  /-- `ClearClientTimerFunc`. -/
  | sweep
deriving DecidableEq

namespace AcceptedConnection

def clear (connection : AcceptedConnection) : AcceptedConnection :=
  if connection.state = .closed then connection else { connection with state := .closed }

/-- `onRead`, whose `read` returns 0. -/
def onPeerClosed (connection : AcceptedConnection) : AcceptedConnection :=
  if connection.state ≠ .connected then connection else connection.clear

@[simp]
theorem onPeerClosed_fd (connection : AcceptedConnection) :
    connection.onPeerClosed.fd = connection.fd := by
  rw [onPeerClosed, clear]
  split
  · rfl
  · split <;> rfl

end AcceptedConnection

namespace TcpServer

/-- `onAccept`. What `accept` has returned is not looked at. -/
def onAccept (server : TcpServer) (address : Nat) (fd : Int) : TcpServer :=
  let counted := { server with
    descriptors := if 0 ≤ fd then insert fd server.descriptors else server.descriptors
    clientCounts := server.clientCounts + 1 }
  match counted.fdEvents.getFdEvent fd with
  | none => { counted with undefined := true }
  | some fdEvents =>
      { counted with
        fdEvents
        clients := counted.clients ++ [{ address, fd, state := .connected }] }

def onPeerClosed (server : TcpServer) (address : Nat) : TcpServer :=
  { server with
    clients := server.clients.map fun connection =>
      if connection.address = address then connection.onPeerClosed else connection }

/-- The loop erases the closed connections. Their destructor deletes the coder. -/
def clearClientTimerFunc (server : TcpServer) : TcpServer :=
  { server with clients := server.clients.filter (·.state ≠ .closed) }

/-- After undefined behaviour nothing is known. `accept` returns no number that is
open, and an object is made at an address that is not in use. -/
def possible (server : TcpServer) : TcpServerEvent → Bool
  | .accept address fd =>
      !server.undefined && fd ∉ server.descriptors &&
        address ∉ server.clients.map (·.address)
  | _ => !server.undefined

def handle (server : TcpServer) : TcpServerEvent → TcpServer
  | .accept address fd => server.onAccept address fd
  | .peerClosed address => server.onPeerClosed address
  | .sweep => server.clearClientTimerFunc

def step (server : TcpServer) (event : TcpServerEvent) : Option TcpServer :=
  if server.possible event then some (server.handle event) else none

/-- The open client descriptors are those of the connections in `m_client`, and
the count is the number of these. -/
structure Accounted (server : TcpServer) : Prop where
  mem_descriptors : ∀ fd, fd ∈ server.descriptors ↔ fd ∈ server.clients.map (·.fd)
  counted : server.clientCounts = server.clients.length

/-- An accepted descriptor leads to a connection. -/
def Connects (server : TcpServer) (fd : Int) : Prop :=
  0 ≤ fd ∧ (fd < server.fdEvents.events.length ∨ fd * 3 / 2 < 2 ^ 31)

/-- The event does not lose track of a descriptor: an `accept` has succeeded, and a
sweep finds no closed connection. -/
def KeepsTrack (server : TcpServer) : TcpServerEvent → Prop
  | .accept _ fd => server.Connects fd
  | .peerClosed _ => True
  | .sweep => ∀ connection ∈ server.clients, connection.state ≠ .closed

theorem onAccept_accounted_iff {server : TcpServer} (sized : 2 ≤ server.fdEvents.events.length)
    (accounted : server.Accounted) (address : Nat) (fd : Int) :
    (server.onAccept address fd).Accounted ↔ server.Connects fd := by
  rw [Connects, ← FdEventGroup.getFdEvent_isSome_iff sized]
  simp only [onAccept]
  cases found : server.fdEvents.getFdEvent fd with
  | none =>
      refine iff_of_false (fun after => ?_) Bool.false_ne_true
      have before := accounted.counted
      have raised : server.clientCounts + 1 = server.clients.length := after.counted
      omega
  | some fdEvents =>
      refine iff_of_true ⟨fun other => ?_, ?_⟩ rfl
      · have connects := (FdEventGroup.getFdEvent_isSome_iff sized fd).mp (by rw [found]; rfl)
        simp only [if_pos connects.1]
        rw [Finset.mem_insert, accounted.mem_descriptors, List.map_append, List.mem_append,
          List.map_singleton, List.mem_singleton, or_comm]
      · rw [List.length_append, accounted.counted]
        rfl

theorem onPeerClosed_accounted {server : TcpServer} (accounted : server.Accounted)
    (address : Nat) : (server.onPeerClosed address).Accounted := by
  have sameFds : (server.onPeerClosed address).clients.map (·.fd) = server.clients.map (·.fd) := by
    rw [onPeerClosed, List.map_map]
    apply List.map_congr_left
    intro connection _
    rw [Function.comp_apply]
    split
    · exact connection.onPeerClosed_fd
    · rfl
  refine ⟨fun fd => ?_, ?_⟩
  · rw [sameFds]
    exact accounted.mem_descriptors fd
  · rw [onPeerClosed, List.length_map]
    exact accounted.counted

theorem clearClientTimerFunc_accounted_iff {server : TcpServer} (accounted : server.Accounted) :
    server.clearClientTimerFunc.Accounted ↔
      ∀ connection ∈ server.clients, connection.state ≠ .closed := by
  constructor
  · intro after connection member
    have counted := after.counted
    rw [clearClientTimerFunc, accounted.counted, Int.natCast_inj] at counted
    have all := List.length_filter_eq_length_iff.mp counted.symm connection member
    exact of_decide_eq_true all
  · intro noneClosed
    have kept : server.clients.filter (·.state ≠ .closed) = server.clients :=
      List.filter_eq_self.mpr fun connection member => decide_eq_true (noneClosed connection member)
    rw [clearClientTimerFunc, kept]
    exact accounted

theorem handle_accounted_iff {server : TcpServer} (sized : 2 ≤ server.fdEvents.events.length)
    (accounted : server.Accounted) (event : TcpServerEvent) :
    (server.handle event).Accounted ↔ server.KeepsTrack event := by
  cases event with
  | accept address fd => exact onAccept_accounted_iff sized accounted address fd
  | peerClosed address => exact iff_of_true (onPeerClosed_accounted accounted address) trivial
  | sweep => exact clearClientTimerFunc_accounted_iff accounted

theorem handle_sized {server : TcpServer} (sized : 2 ≤ server.fdEvents.events.length)
    (event : TcpServerEvent) : 2 ≤ (server.handle event).fdEvents.events.length := by
  cases event with
  | accept address fd =>
      simp only [handle, onAccept]
      cases found : server.fdEvents.getFdEvent fd with
      | none => exact sized
      | some fdEvents => exact sized.trans (FdEventGroup.getFdEvent_length found)
  | peerClosed address => exact sized
  | sweep => exact sized

theorem step_eq_some {server next : TcpServer} {event : TcpServerEvent}
    (stepped : server.step event = some next) : next = server.handle event := by
  rw [step, Option.ite_none_right_eq_some] at stepped
  exact (Option.some.inj stepped.2).symm

end TcpServer

def tcpServerSystem : Transition.System TcpServer TcpServerEvent where
  Initial server :=
    128 ≤ server.fdEvents.events.length ∧ server.descriptors = ∅ ∧ server.clients = [] ∧
      server.clientCounts = 0 ∧ server.undefined = false
  Step server event next := server.step event = some next

namespace TcpServer

/-- A failed `accept` has no effect. -/
def FailedAcceptIgnored (current : TcpServer) (event : TcpServerEvent) (next : TcpServer) :
    Prop :=
  ∀ address fd, event = .accept address fd → fd < 0 → next = current

/-- The descriptors and the count are those of `m_client` in every state, and a failed
`accept` has no effect, exactly where no `accept` fails and no sweep finds a closed
connection. -/
theorem connections_accounted_iff {server : TcpServer}
    (initial : tcpServerSystem.Initial server) (events : List TcpServerEvent) :
    (tcpServerSystem.Always Accounted server events ∧
        tcpServerSystem.EachStep FailedAcceptIgnored server events) ↔
      tcpServerSystem.EachStep (fun current event _ => current.KeepsTrack event)
        server events := by
  rcases initial with ⟨sized, noDescriptors, noClients, notCounted, _⟩
  have accounted : server.Accounted := by
    refine ⟨fun fd => ?_, ?_⟩
    · rw [noDescriptors, noClients]
      exact iff_of_false (Finset.notMem_empty fd) List.not_mem_nil
    · rw [notCounted, noClients]
      rfl
  have preserved : ∀ current event next, 2 ≤ current.fdEvents.events.length →
      tcpServerSystem.Step current event next → 2 ≤ next.fdEvents.events.length := by
    intro current event next sized stepped
    rw [step_eq_some stepped]
    exact handle_sized sized event
  have keeps_iff : ∀ current event next, 2 ≤ current.fdEvents.events.length →
      current.Accounted → tcpServerSystem.Step current event next →
      (next.Accounted ↔ current.KeepsTrack event) := by
    intro current event next sized accounted stepped
    rw [step_eq_some stepped]
    exact handle_accounted_iff sized accounted event
  have always_iff := Transition.System.always_iff preserved keeps_iff
    (Nat.le_trans (by decide) sized) accounted events
  refine ⟨fun both => always_iff.mp both.1, fun keepsTrack => ⟨always_iff.mpr keepsTrack, ?_⟩⟩
  intro earlier current event next isPrefix run step address fd isAccept failed
  have connects := keepsTrack earlier current event next isPrefix run step
  rw [isAccept] at connects
  exact absurd connects.1 (Int.not_le.mpr failed)

def started : TcpServer where
  fdEvents := .new 128
  descriptors := ∅
  clients := []
  clientCounts := 0

theorem started_initial : tcpServerSystem.Initial started :=
  ⟨Nat.le_of_eq List.length_replicate.symm, rfl, rfl, rfl, rfl⟩

theorem connections_accounted_iff_started :
    (tcpServerSystem.Always Accounted started [.accept 0 7, .peerClosed 0, .sweep] ∧
        tcpServerSystem.EachStep FailedAcceptIgnored started
          [.accept 0 7, .peerClosed 0, .sweep]) ↔
      tcpServerSystem.EachStep (fun current event _ => current.KeepsTrack event) started
        [.accept 0 7, .peerClosed 0, .sweep] :=
  connections_accounted_iff started_initial [.accept 0 7, .peerClosed 0, .sweep]

/-- After the sweep `m_client` is empty, and the descriptor of the connection is open
and counted. -/
theorem connections_not_accounted :
    tcpServerSystem.Initial started ∧
      ∃ server, tcpServerSystem.Run started [.accept 0 7, .peerClosed 0, .sweep] server ∧
        ¬server.Accounted ∧ 7 ∈ server.descriptors ∧ server.clients = [] ∧
        server.clientCounts = 1 := by
  have computed : ([.accept 0 7, .peerClosed 0, .sweep].foldlM step started).map
      (fun server => (decide (7 ∈ server.descriptors), server.clients, server.clientCounts)) =
        some (true, [], 1) := by
    decide +kernel
  rcases @Transition.System.Run.of_observed _ _ _ tcpServerSystem _
    (fun _ _ _ stepped => stepped) _ _ _ _ computed with ⟨server, run, facts⟩
  simp only [Prod.mk.injEq, decide_eq_true_eq] at facts
  refine ⟨started_initial, server, run, fun accounted => ?_, facts⟩
  have counted := accounted.counted
  rw [facts.2.1, facts.2.2] at counted
  cases counted

end TcpServer

end NetRpc
