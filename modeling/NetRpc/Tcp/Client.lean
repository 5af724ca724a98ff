import NetRpc.Common.NetByte
import NetRpc.Common.ErrorCode

/-! # TcpClient

Connecting to the peer. What the system calls answer is given; what is left is
which answers reach the `done` callback, and what the client holds by then.
-/

namespace NetRpc

inductive TcpState
  | notConnected
  | connected
  | halfClosing
  | closed
deriving DecidableEq

/-- The event loop of the thread as `connect` finds it. -/
inductive EventLoopState
  /-- `loop` has not been entered on this thread. -/
  | idle
  /-- A frame further up the stack is inside `loop`. -/
  | looping
  /-- `loop` has returned. `m_is_looping` is never reset. -/
  | stopped
deriving DecidableEq

namespace EventLoopState

def isLooping (eventLoop : EventLoopState) : Bool :=
  eventLoop ≠ .idle

@[simp]
theorem isLooping_idle : isLooping .idle = false := rfl

@[simp]
theorem isLooping_looping : isLooping .looping = true := rfl

@[simp]
theorem isLooping_stopped : isLooping .stopped = true := rfl

end EventLoopState

/-- What the second `::connect` answers, once the socket is writable. -/
inductive ConnectResult
  | connected
  | refused (sysError : Bytes)
  | unknown (sysError : Bytes)
deriving DecidableEq

/-- What one attempt meets. -/
inductive ConnectAttempt
  | connected
  /-- The answer is still to come. Where `connect` enters `loop` to wait for it,
  `stops` says whether that loop is stopped afterwards. -/
  | inProgress (result : ConnectResult) (stops : Bool)
  | failed (sysError : Bytes)
deriving DecidableEq

/-- The error codes that `connect` leaves in a client, each with its text. -/
inductive ConnectError
  | peerClosed (info : Bytes)
  | failedConnect (info : Bytes)
deriving DecidableEq

namespace ConnectError

def code : ConnectError → Int32
  | .peerClosed _ => errorPeerClosed
  | .failedConnect _ => errorFailedConnect

def info : ConnectError → Bytes
  | .peerClosed info => info
  | .failedConnect info => info

theorem code_ne_zero (error : ConnectError) : error.code ≠ 0 := by
  cases error with
  | peerClosed info => exact (by decide : errorPeerClosed ≠ 0)
  | failedConnect info => exact (by decide : errorFailedConnect ≠ 0)

end ConnectError

/-- How an attempt ends. -/
inductive ConnectOutcome
  | connected
  | failed (error : ConnectError)
deriving DecidableEq

def ConnectResult.outcome : ConnectResult → ConnectOutcome
  | .connected => .connected
  | .refused sysError =>
      .failed (.peerClosed (ascii "connect refused, sys error = " ++ sysError))
  | .unknown sysError =>
      .failed (.failedConnect (ascii "connect unkonwn error, sys error =" ++ sysError))

@[simp]
theorem ConnectResult.outcome_eq_connected (result : ConnectResult) :
    result.outcome = .connected ↔ result = .connected := by
  cases result <;> simp [outcome]

structure TcpClient where
  eventLoop : EventLoopState
  state : TcpState := .notConnected
  /-- `m_connect_error_code` and its text, `none` as long as the code is 0. -/
  connectError : Option ConnectError := none
  /-- The callback that waits for the socket to become writable is registered,
  and this is what its `::connect` is going to answer. -/
  awaited : Option ConnectResult := none
deriving DecidableEq

namespace TcpClient

def getConnectErrorCode (client : TcpClient) : Int32 :=
  (client.connectError.map ConnectError.code).getD 0

def getConnectErrorInfo (client : TcpClient) : Bytes :=
  (client.connectError.map ConnectError.info).getD []

/-- A success does not touch the error that an earlier attempt has left. -/
def record (client : TcpClient) : ConnectOutcome → TcpClient
  | .connected => { client with state := .connected }
  | .failed error => { client with connectError := some error }

/-- `writeMessage`, as far as it touches the client. `listenWrite` registers the
callback of the connection for the socket, in place of one that waits for it. -/
def writeMessage (client : TcpClient) : TcpClient :=
  { client with awaited := none }

/-- What `connect` calls at its end. It reads the connect error, and may go on
working with the client. -/
abbrev Done (World : Type) := TcpClient → World → TcpClient × World

variable {World : Type}

/-- The callback that waits for the socket to become writable. -/
def onWritable (done : Done World) (client : TcpClient) (world : World)
    (result : ConnectResult) : TcpClient × World :=
  done { client.record result.outcome with awaited := none } world

/-- The client and what `done` works on, when `connect` returns or waits for ever. -/
def connect (done : Done World) (client : TcpClient) (world : World) :
    ConnectAttempt → TcpClient × World
  | .connected => done (client.record .connected) world
  | .inProgress result stops =>
      if client.eventLoop.isLooping then
        ({ client with awaited := some result }, world)
      else
        let (client, world) := onWritable done { client with eventLoop := .looping } world result
        ({ client with eventLoop := if stops then .stopped else .looping }, world)
  | .failed sysError =>
      done (client.record
        (.failed (.failedConnect (ascii "connect error, sys error = " ++ sysError)))) world

/-- `connect` returns to its caller. -/
def returns (client : TcpClient) : ConnectAttempt → Bool
  | .inProgress _ stops => client.eventLoop.isLooping || stops
  | _ => true

/-- What the loop further up the stack does about the client when it goes on. -/
def settle (done : Done World) (client : TcpClient) (world : World) : TcpClient × World :=
  match client.eventLoop, client.awaited with
  | .looping, some result => onWritable done client world result
  | _, _ => (client, world)

end TcpClient

end NetRpc
