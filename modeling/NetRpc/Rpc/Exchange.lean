import NetRpc.Coder.Chunking
import NetRpc.Rpc.Channel
import NetRpc.Rpc.Responses
import NetRpc.Tcp.ReadDones
import NetRpc.Tcp.ReceivePath

/-! # A call between two connections

The connection of a client that makes one call, the connection of the server,
and the bytes on their way between the two. Every function of either side that
the event loops call is one step, in any order.
-/

namespace NetRpc

open RpcChannel RpcDispatcher TcpConnection TinyPBCoder

/-- What `write()` returns in one loop of `onWrite`: the counts of the writes
that take a part, and whether a last one takes everything. -/
structure Writes where
  counts : List Nat
  all : Bool
deriving DecidableEq

namespace Writes

/-- Everything is taken at once. -/
def whole : Writes where
  counts := []
  all := true

/-- Every write starts over at the read cursor. -/
def bytes (writes : Writes) (outBuffer : TcpBuffer) : Bytes :=
  writes.counts.flatMap outBuffer.readable.take ++
    if writes.all then outBuffer.readable else []

/-- The results are those of one loop. -/
structure Feasible (writes : Writes) (outBuffer : TcpBuffer) : Prop where
  partially : ∀ count ∈ writes.counts, 0 < count ∧ count < outBuffer.readAble
  drained : outBuffer.readAble = 0 → writes.all = true

theorem bytes_whole (outBuffer : TcpBuffer) : whole.bytes outBuffer = outBuffer.readable :=
  rfl

end Writes

/-- The loop of `onRead` takes `results` off the wire, and `decode` returns `messages`. -/
structure Reads (inBuffer : TcpBuffer) (wire : Bytes) (results : List ReadResult)
    (filled : TcpBuffer) (messages : List TinyPBProtocol) (drained : TcpBuffer)
    (rest : Bytes) : Prop where
  onWire : wire = received results ++ rest
  feasible : Feasible inBuffer results
  ran : readLoop inBuffer results = some (.readAll, filled)
  decoded : Loop.Returns body filled messages drained

/-- The read loop loses nothing, and the decoder is called on an undisturbed buffer. -/
structure ReadsSmoothly (inBuffer : TcpBuffer) (results : List ReadResult) : Prop where
  lossless : ∀ result ∈ results, result.bytes.length < inBuffer.writeAble
  undisturbed : ∀ filled, readLoop inBuffer results = some (.readAll, filled) →
    Undisturbed filled

structure Exchange (Method Request Result Response : Type) where
  call : ActiveCall Response
  /-- The timer of the call has not been run. -/
  timerPending : Bool
  reader : Reader (ActiveCall Response)
  writeDones : List TinyPBProtocol
  clientOut : TcpBuffer
  /-- `OUT_EVENT` is in the interest set of the client's descriptor. -/
  clientListensWrite : Bool
  /-- The bytes that the client's socket has accepted and the server has not read. -/
  upward : Bytes
  serverIn : TcpBuffer
  server : Server Method Request Result
  serverListensWrite : Bool
  downward : Bytes

inductive ExchangeEvent (Result : Type)
  | clientOnWrite (writes : Writes)
  | serverOnRead (results : List ReadResult)
  /-- A closure that a service has kept is run. -/
  | serverDone (index : Nat) (result : Result)
  | serverOnWrite (writes : Writes)
  | clientOnRead (results : List ReadResult)
  | timeout

namespace Exchange

variable {Method Request Result Response : Type}

/-- The client is connected, and `writeMessage` has been called. -/
def start (request : TinyPBProtocol) (controller : RpcController) (response : Response) :
    Exchange Method Request Result Response where
  call := .start controller response
  timerPending := true
  reader := { inBuffer := .new 128, readDones := fun _ => none }
  writeDones := [request]
  clientOut := .new 128
  clientListensWrite := true
  upward := []
  serverIn := .new 128
  server := .new 128
  serverListensWrite := false
  downward := []

/-- Nothing is on its way, and nobody has anything to write. -/
structure Quiescent (state : Exchange Method Request Result Response) : Prop where
  clientSilent : state.clientListensWrite = false
  upward : state.upward = []
  serverSilent : state.serverListensWrite = false
  downward : state.downward = []

end Exchange

section Steps

variable {Method Request Result Response : Type}

/-! The services of the server, what each of them does, the closure of the call
and the parser of its response. -/

variable (serviceMap : ServiceMap Method Request Result)
  (behaviour : TinyPBProtocol → Behaviour Result) (closure : Option (Closure Response))
  (parseFromString : Bytes → Response × Bool)

/-- What `readMessage` registers under the id of each message that has been sent. -/
def readMessages (reader : Reader (ActiveCall Response)) (sent : List TinyPBProtocol) :
    Reader (ActiveCall Response) :=
  sent.foldl (fun reader message => reader.pushReadMessage message.msgId fun message call =>
    onResponse closure parseFromString call message) reader

inductive ExchangeStep : Exchange Method Request Result Response → ExchangeEvent Result →
    Exchange Method Request Result Response → Prop
  | clientOnWrite {state : Exchange Method Request Result Response} {writes : Writes}
      {sent : List TinyPBProtocol} {outBuffer : TcpBuffer} :
      state.clientListensWrite = true →
      encode state.writeDones state.clientOut = some (sent, outBuffer) →
      writes.Feasible outBuffer →
      ExchangeStep state (.clientOnWrite writes)
        { state with
          writeDones := []
          clientOut := outBuffer
          clientListensWrite := !writes.all
          upward := state.upward ++ writes.bytes outBuffer
          reader := readMessages closure parseFromString state.reader sent }
  | serverOnRead {state : Exchange Method Request Result Response} {results : List ReadResult}
      {filled drained : TcpBuffer} {messages : List TinyPBProtocol} {rest : Bytes}
      {server : Server Method Request Result} :
      Reads state.serverIn state.upward results filled messages drained rest →
      state.server.excute serviceMap (messages.map fun message => (message, behaviour message)) =
        some server →
      ExchangeStep state (.serverOnRead results)
        { state with
          upward := rest
          serverIn := drained
          server := server
          serverListensWrite := true }
  | serverDone {state : Exchange Method Request Result Response} {index : Nat} {result : Result}
      {server : Server Method Request Result} :
      state.server.finish index result = some server →
      ExchangeStep state (.serverDone index result)
        { state with server := server, serverListensWrite := true }
  | serverOnWrite {state : Exchange Method Request Result Response} {writes : Writes} :
      state.serverListensWrite = true →
      writes.Feasible state.server.outBuffer →
      ExchangeStep state (.serverOnWrite writes)
        { state with
          serverListensWrite := !writes.all
          downward := state.downward ++ writes.bytes state.server.outBuffer }
  | clientOnRead {state : Exchange Method Request Result Response} {results : List ReadResult}
      {filled drained : TcpBuffer} {messages : List TinyPBProtocol} {rest : Bytes}
      {delivered : Reader (ActiveCall Response) × ActiveCall Response} :
      Reads state.reader.inBuffer state.downward results filled messages drained rest →
      messages.foldl Reader.deliver ({ state.reader with inBuffer := drained }, state.call) =
        delivered →
      ExchangeStep state (.clientOnRead results)
        { state with downward := rest, reader := delivered.1, call := delivered.2 }
  | timeout {state : Exchange Method Request Result Response} :
      state.timerPending = true →
      ExchangeStep state .timeout
        { state with timerPending := false, call := onTimeout closure state.call }

def exchange (request : TinyPBProtocol) (controller : RpcController) (response : Response) :
    Transition.System (Exchange Method Request Result Response) (ExchangeEvent Result) where
  Initial state := state = .start request controller response
  Step := ExchangeStep serviceMap behaviour closure parseFromString

/-- Every write takes everything, and every read keeps everything. -/
def Smooth (state : Exchange Method Request Result Response) : ExchangeEvent Result → Prop
  | .clientOnWrite writes => writes = .whole
  | .serverOnWrite writes => writes = .whole
  | .serverOnRead results => ReadsSmoothly state.serverIn results
  | .clientOnRead results => ReadsSmoothly state.reader.inBuffer results
  | _ => True

end Steps

/-! ## One end of the wire -/

section Reading

variable {messages emitted items : List TinyPBProtocol} {inBuffer filled drained : TcpBuffer}
  {wire rest missing : Bytes} {results : List ReadResult}

/-- What an end has decoded, has in its buffer and is still to receive makes up
the stream of the messages. -/
def Received (messages : List TinyPBProtocol) (missing : Bytes) (inBuffer : TcpBuffer)
    (emitted : List TinyPBProtocol) : Prop :=
  Settled messages missing (.receiving inBuffer emitted)

theorem Received.new (messages : List TinyPBProtocol) :
    Received messages (stream messages) (.new 128) [] := by
  have spare := @TcpBuffer.new_spare 128 (by decide) (by decide)
  refine ⟨.new 128, [], messages, rfl, spare, rfl, ?_, ?_⟩
  · rw [TcpBuffer.new_readable, List.nil_append]
  · rw [TcpBuffer.new_readable]
    exact incomplete_nil messages

/-- More messages are sent. -/
theorem Received.extend (received : Received messages missing inBuffer emitted)
    (more : List TinyPBProtocol) :
    Received (messages ++ more) (missing ++ stream more) inBuffer emitted := by
  rcases received with ⟨buffer, decoded, later, same, spare, split, rest, incomplete⟩
  refine ⟨buffer, decoded, later ++ more, same, spare, ?_, ?_, ?_⟩
  · rw [split, List.append_assoc]
  · rw [← List.append_assoc, rest, stream_append]
  · cases later with
    | nil =>
        have empty : buffer.readable = [] := incomplete
        rw [empty]
        exact incomplete_nil _
    | cons message later => exact incomplete

/-- Where nothing is missing, everything has been decoded. -/
theorem Received.complete (received : Received messages [] inBuffer emitted) :
    emitted = messages.map TinyPBProtocol.measured := by
  rcases received with ⟨buffer, decoded, later, same, _, split, rest, incomplete⟩
  cases same
  cases later with
  | nil => rw [split, List.append_nil]
  | cons message later =>
      rcases incomplete with ⟨isPrefix, notWhole⟩
      rw [List.append_nil, stream_cons] at rest
      rw [rest] at isPrefix notWhole
      have whole := isPrefix.eq_of_length_le (by rw [List.length_append]; omega)
      exact absurd whole notWhole

theorem Received.emitted_prefix (received : Received messages missing inBuffer emitted) :
    emitted <+: messages.map TinyPBProtocol.measured := by
  rcases received with ⟨_, decoded, later, same, _, split, _, _⟩
  cases same
  rw [split, List.map_append]
  exact List.prefix_append _ _

/-- A smooth read leaves nothing out. -/
theorem Received.read (admissible : ∀ message ∈ messages, message.Admissible)
    (isReceived : Received messages (wire ++ missing) inBuffer emitted)
    (reads : Reads inBuffer wire results filled items drained rest)
    (smooth : ReadsSmoothly inBuffer results) :
    Received messages (rest ++ missing) drained (emitted ++ items) := by
  rcases isReceived with ⟨_, decoded, later, same, spare, split, stream, incomplete⟩
  cases same
  rcases readLoop_outcome spare reads.feasible with ⟨ending, final, ran, finalSpare, readable⟩
  rw [reads.ran] at ran
  cases ran
  have room : 0 < inBuffer.writeAble := by
    have below := spare.writeLtSize
    rw [TcpBuffer.writeAble]
    omega
  rw [(kept_eq_received_iff room).mpr smooth.lossless] at readable
  have before : Settled messages (received results ++ (rest ++ missing))
      (.receiving inBuffer (decoded.map TinyPBProtocol.measured)) := by
    rw [← List.append_assoc, ← reads.onWire]
    exact ⟨inBuffer, decoded, later, rfl, spare, split, stream, incomplete⟩
  exact settled_round admissible before ⟨.append finalSpare readable, trivial⟩
    ⟨.decode reads.decoded, smooth.undisturbed filled reads.ran⟩

end Reading

end NetRpc
