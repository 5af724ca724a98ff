import NetRpc.Rpc.Answer
import NetRpc.Tcp.SendPath

/-! # A remote call

However the two connections and the wire take turns, the service gets the
request at most once, and the channel of the client gets one response, the
answer of the server. What the server sends behind it finds no callback.
-/

namespace NetRpc

open RpcChannel RpcDispatcher TcpConnection TinyPBCoder

variable {Method Request Result Response : Type}
  {serviceMap : ServiceMap Method Request Result}

/-! ## The client -/

section Client

variable {closure : Option (Closure Response)} {parseFromString : Bytes → Response × Bool}

/-- The responses among the events that a call has seen. -/
def responsesIn (events : List CallEvent) : List TinyPBProtocol :=
  events.filterMap fun event =>
    match event with
    | .responds rspProtocol => some rspProtocol
    | _ => none

/-- The events that a call has seen: of the messages that have been decoded the
first, if any, and the timeout once it has arrived. -/
structure Seen (emitted : List TinyPBProtocol) (timerPending : Bool) (seen : List CallEvent) :
    Prop where
  responses : responsesIn seen = emitted.take 1
  timeouts : seen.count .timeoutArrives = if timerPending then 0 else 1
  nothingElse : ∀ event ∈ seen, event = .timeoutArrives ∨ ∃ message, event = .responds message

def Reported (closure : Option (Closure Response)) (parseFromString : Bytes → Response × Bool)
    (initial : ActiveCall Response) (emitted : List TinyPBProtocol) (timerPending : Bool)
    (call : ActiveCall Response) : Prop :=
  ∃ seen, call = handleAll closure parseFromString initial seen ∧ Seen emitted timerPending seen

/-- Once a message has been reported, its callback is forgotten. -/
structure Heard (closure : Option (Closure Response)) (parseFromString : Bytes → Response × Bool)
    (initial : ActiveCall Response) (msgId : Bytes) (emitted : List TinyPBProtocol)
    (timerPending : Bool) (reader : Reader (ActiveCall Response)) (call : ActiveCall Response) :
    Prop where
  reported : Reported closure parseFromString initial emitted timerPending call
  registered : reader.readDones msgId = if emitted = [] then
    some fun message call => onResponse closure parseFromString call message else none

variable {initial call : ActiveCall Response} {msgId : Bytes}
  {emitted messages : List TinyPBProtocol} {timerPending : Bool}
  {reader : Reader (ActiveCall Response)}

theorem responsesIn_append (left right : List CallEvent) :
    responsesIn (left ++ right) = responsesIn left ++ responsesIn right :=
  List.filterMap_append

theorem Reported.timeout (reported : Reported closure parseFromString initial emitted true call) :
    Reported closure parseFromString initial emitted false (onTimeout closure call) := by
  rcases reported with ⟨events, reached, seen⟩
  refine ⟨events ++ [.timeoutArrives], ?_, ?_, ?_, ?_⟩
  · rw [handleAll_append, ← reached]
    rfl
  · rw [responsesIn_append, seen.responses]
    exact List.append_nil _
  · rw [List.count_append, seen.timeouts]
    rfl
  · rw [List.forall_mem_append, List.forall_mem_singleton]
    exact ⟨seen.nothingElse, .inl rfl⟩

theorem Reported.responds (message : TinyPBProtocol)
    (reported : Reported closure parseFromString initial [] timerPending call) :
    Reported closure parseFromString initial [message] timerPending
      (onResponse closure parseFromString call message) := by
  rcases reported with ⟨events, reached, seen⟩
  refine ⟨events ++ [.responds message], ?_, ?_, ?_, ?_⟩
  · rw [handleAll_append, ← reached]
    rfl
  · rw [responsesIn_append, seen.responses]
    rfl
  · rw [List.count_append, seen.timeouts]
    rfl
  · rw [List.forall_mem_append, List.forall_mem_singleton]
    exact ⟨seen.nothingElse, .inr ⟨message, rfl⟩⟩

theorem Heard.deliver {message : TinyPBProtocol}
    (heard : Heard closure parseFromString initial msgId emitted timerPending reader call)
    (bears : message.msgId = msgId) :
    Heard closure parseFromString initial msgId (emitted ++ [message]) timerPending
      (Reader.deliver (reader, call) message).1 (Reader.deliver (reader, call) message).2 := by
  rcases heard with ⟨reported, registered⟩
  by_cases first : emitted = []
  · subst first
    rw [if_pos rfl, ← bears] at registered
    rw [Reader.deliver, registered]
    refine ⟨reported.responds message, ?_⟩
    rw [bears, List.nil_append, if_neg (List.cons_ne_nil message [])]
    exact Function.update_self _ _ _
  · rw [if_neg first, ← bears] at registered
    rw [Reader.deliver, registered]
    rcases reported with ⟨events, reached, seen⟩
    refine ⟨⟨events, reached, ?_, seen.timeouts, seen.nothingElse⟩, ?_⟩
    · rw [seen.responses, List.take_append_of_le_length (List.length_pos_iff.mpr first)]
    · rw [← bears, registered, if_neg (List.append_ne_nil_of_left_ne_nil first _)]

theorem Heard.deliverAll (bear : ∀ message ∈ messages, message.msgId = msgId)
    (heard : Heard closure parseFromString initial msgId emitted timerPending reader call) :
    Heard closure parseFromString initial msgId (emitted ++ messages) timerPending
      (messages.foldl Reader.deliver (reader, call)).1
      (messages.foldl Reader.deliver (reader, call)).2 := by
  induction messages generalizing emitted reader call with
  | nil =>
      rw [List.append_nil]
      exact heard
  | cons message messages induction =>
      rw [List.forall_mem_cons] at bear
      rw [List.append_cons]
      exact induction bear.2 (heard.deliver bear.1)

/-- No callback touches the buffer. -/
theorem deliverAll_inBuffer (messages : List TinyPBProtocol) (reader : Reader (ActiveCall Response))
    (call : ActiveCall Response) :
    (messages.foldl Reader.deliver (reader, call)).1.inBuffer = reader.inBuffer := by
  induction messages generalizing reader call with
  | nil => rfl
  | cons message messages induction =>
      rw [List.foldl_cons, Reader.deliver]
      split
      · exact induction _ _
      · exact induction reader call

end Client

/-! ## The whole exchange -/

section Whole

variable {behaviour : TinyPBProtocol → Behaviour Result} {closure : Option (Closure Response)}
  {parseFromString : Bytes → Response × Bool} {request : TinyPBProtocol}
  {initial : ActiveCall Response}

theorem measured_admissible (admissible : request.Admissible) : request.measured.Admissible where
  msgId_ne_nil := admissible.msgId_ne_nil
  msgId_nulFree := admissible.msgId_nulFree
  msgId_short := admissible.msgId_short
  methodName_nulFree := admissible.methodName_nulFree
  methodName_short := admissible.methodName_short
  errInfo_nulFree := admissible.errInfo_nulFree
  errInfo_short := admissible.errInfo_short
  frameLength_fits := admissible.frameLength_fits

/-- The request is with the client, or it has been written. -/
inductive ClientSide (request : TinyPBProtocol) (state : Exchange Method Request Result Response) :
    Prop
  | waiting (dones : state.writeDones = [request]) (listens : state.clientListensWrite = true)
      (valid : state.clientOut.Valid) (empty : state.clientOut.readable = [])
      (silent : state.upward = [])
      (unregistered : state.reader.readDones = fun _ => none)
      (received : Received [request] (frame request) state.serverIn state.server.requests)
  | written (dones : state.writeDones = []) (listens : state.clientListensWrite = false)
      (received : Received [request] state.upward state.serverIn state.server.requests)

/-- The client's side of a state depends on nothing else. -/
theorem ClientSide.congr {state next : Exchange Method Request Result Response}
    (client : ClientSide request state) (dones : next.writeDones = state.writeDones)
    (listens : next.clientListensWrite = state.clientListensWrite)
    (clientOut : next.clientOut = state.clientOut) (upward : next.upward = state.upward)
    (readDones : state.writeDones ≠ [] → next.reader.readDones = state.reader.readDones)
    (serverIn : next.serverIn = state.serverIn)
    (requests : next.server.requests = state.server.requests) : ClientSide request next := by
  cases client with
  | waiting waits isListening valid empty silent unregistered received =>
      have some : state.writeDones ≠ [] := by
        rw [waits]
        exact List.cons_ne_nil _ _
      refine .waiting (dones.trans waits) (listens.trans isListening) (clientOut ▸ valid)
        (clientOut ▸ empty) (upward.trans silent) ((readDones some).trans unregistered) ?_
      rw [serverIn, requests]
      exact received
  | written none silent received =>
      refine .written (dones.trans none) (listens.trans silent) ?_
      rw [upward, serverIn, requests]
      exact received

/-- What the server has written are frames that start with the answer. -/
structure ServerSide (answer request : TinyPBProtocol)
    (state : Exchange Method Request Result Response) (sent emitted : List TinyPBProtocol) :
    Prop where
  received : Received sent state.downward state.reader.inBuffer emitted
  fit : ∀ message ∈ sent, Fits request message
  first : sent = [] ∨ sent.head? = some answer
  nothing : state.server.appended = [] → sent = []
  something : state.serverListensWrite = false → state.server.appended ≠ [] → sent ≠ []

/-- The callback that is registered for the call once the request has been written. -/
def Registered (closure : Option (Closure Response)) (parseFromString : Bytes → Response × Bool)
    (request : TinyPBProtocol) (state : Exchange Method Request Result Response)
    (emitted : List TinyPBProtocol) : Prop :=
  state.writeDones = [] → state.reader.readDones request.msgId = if emitted = [] then
    some fun message call => onResponse closure parseFromString call message else none

/-- The two sides and the call agree on how far the exchange has come. -/
structure Agreeing (serviceMap : ServiceMap Method Request Result)
    (behaviour : TinyPBProtocol → Behaviour Result) (closure : Option (Closure Response))
    (parseFromString : Bytes → Response × Bool) (request : TinyPBProtocol)
    (initial : ActiveCall Response) (state : Exchange Method Request Result Response) :
    Prop where
  client : ClientSide request state
  serves : ServesOnly serviceMap behaviour request.measured state.server
  call : ∃ sent emitted,
    ServerSide (answer serviceMap behaviour request.measured) request.measured state sent
        emitted ∧
      Reported closure parseFromString initial emitted state.timerPending state.call ∧
      Registered closure parseFromString request state emitted

variable {state : Exchange Method Request Result Response} {sent emitted : List TinyPBProtocol}

/-- As long as the request has not been written, nothing is sent back. -/
theorem nothing_sent
    (received : Received [request] (frame request) state.serverIn state.server.requests)
    (serves : ServesOnly serviceMap behaviour request.measured state.server)
    (side : ServerSide (answer serviceMap behaviour request.measured) request.measured state
      sent emitted) : sent = [] ∧ emitted = [] := by
  have noRequests : state.server.requests = [] := by
    rcases received with ⟨buffer, decoded, later, same, _, split, rest, _⟩
    cases decoded with
    | nil =>
        rw [Session.receiving.injEq] at same
        exact same.2
    | cons message decoded =>
        -- A frame would have been decoded of which no byte has been sent.
        rw [List.cons_append, List.cons.injEq] at split
        have none : later = [] := (List.append_eq_nil_iff.mp split.2.symm).2
        have positive := frame_length_pos request
        rw [none, stream_nil, List.append_eq_nil_iff] at rest
        rw [rest.2] at positive
        exact absurd positive (Nat.lt_irrefl 0)
  have noSent := side.nothing (serves.new_of_none noRequests).2
  subst noSent
  exact ⟨rfl, List.prefix_nil.mp side.received.emitted_prefix⟩

theorem agreeing_start (request : TinyPBProtocol) (controller : RpcController)
    (response : Response) :
    Agreeing serviceMap behaviour closure parseFromString request (.start controller response)
      (.start request controller response) where
  client := .waiting rfl rfl (TcpBuffer.new_valid (by decide)) (TcpBuffer.new_readable 128) rfl rfl
    (by
      have received := Received.new [request]
      rw [stream_cons, stream_nil, List.append_nil] at received
      exact received)
  serves := .new serviceMap behaviour request.measured
  call := by
    refine ⟨[], [], ⟨.new [], ?_, .inl rfl, fun _ => rfl, ?_⟩,
      ⟨[], rfl, rfl, rfl, ?_⟩, ?_⟩
    · intro message none
      cases none
    · intro _ some
      exact absurd rfl some
    · intro event none
      cases none
    · intro none
      cases none

/-- The frame of the request is written, and its callback is registered. -/
theorem Agreeing.clientOnWrite {sentMessages : List TinyPBProtocol} {outBuffer : TcpBuffer}
    (hasId : request.msgId ≠ [])
    (agreeing : Agreeing serviceMap behaviour closure parseFromString request initial state)
    (listens : state.clientListensWrite = true)
    (encoded : encode state.writeDones state.clientOut = some (sentMessages, outBuffer)) :
    Agreeing serviceMap behaviour closure parseFromString request initial
      { state with
        writeDones := []
        clientOut := outBuffer
        clientListensWrite := !Writes.whole.all
        upward := state.upward ++ Writes.whole.bytes outBuffer
        reader := readMessages closure parseFromString state.reader sentMessages } := by
  rcases agreeing with ⟨client, serves, sent, emitted, side, reported, _⟩
  cases client with
  | written _ silent =>
      rw [silent] at listens
      cases listens
  | waiting dones _ valid empty silent unregistered received =>
      rcases nothing_sent received serves side with ⟨rfl, rfl⟩
      rw [dones] at encoded
      rcases encode_spec valid encoded with ⟨_, readable, rfl⟩
      rw [empty, List.nil_append, stream_cons, stream_nil, List.append_nil] at readable
      have sameId : (stamp request).msgId = request.msgId := (stamp_msgId_iff request).mpr hasId
      have registered := @Reader.pushReadMessage_absent _ state.reader request.msgId
        (by rw [unregistered]) fun message call => onResponse closure parseFromString call message
      have reader : readMessages closure parseFromString state.reader ([request].map stamp) =
          state.reader.pushReadMessage request.msgId fun message call =>
            onResponse closure parseFromString call message := by
        rw [readMessages, List.map_singleton, List.foldl_cons, List.foldl_nil, sameId]
      rw [reader]
      refine ⟨.written rfl rfl ?_, serves, [], [], ?_, reported, fun _ => registered.1⟩
      · rw [silent, List.nil_append, Writes.bytes_whole, readable]
        exact received
      · refine ⟨?_, side.fit, side.first, side.nothing, side.something⟩
        rw [registered.2]
        exact side.received

/-- What the server decodes is the request, once. -/
theorem Agreeing.serverOnRead {results : List ReadResult} {filled drained : TcpBuffer}
    {messages : List TinyPBProtocol} {rest : Bytes} {server : Server Method Request Result}
    (admissible : request.Admissible) (responsesFit : ResponsesFit serviceMap)
    (agreeing : Agreeing serviceMap behaviour closure parseFromString request initial state)
    (reads : Reads state.serverIn state.upward results filled messages drained rest)
    (smooth : ReadsSmoothly state.serverIn results)
    (ran : state.server.excute serviceMap (messages.map fun message =>
      (message, behaviour message)) = some server) :
    Agreeing serviceMap behaviour closure parseFromString request initial
      { state with
        upward := rest
        serverIn := drained
        server := server
        serverListensWrite := true } := by
  rcases agreeing with ⟨client, serves, sent, emitted, side, reported, registered⟩
  have alone : ∀ message ∈ [request], message.Admissible := by
    rw [List.forall_mem_singleton]
    exact admissible
  have read : ∀ missing, Received [request] (state.upward ++ missing) state.serverIn
      state.server.requests →
      Received [request] (rest ++ missing) drained (state.server.requests ++ messages) := by
    intro missing received
    exact received.read alone reads smooth
  have within : state.server.requests ++ messages <+: [request.measured] := by
    cases client with
    | waiting _ _ _ _ silent _ received =>
        have nextReceived := read (frame request) (by rw [silent]; exact received)
        exact nextReceived.emitted_prefix
    | written _ _ received =>
        have nextReceived := read [] (by rw [List.append_nil]; exact received)
        exact nextReceived.emitted_prefix
  rcases serves.excuteAll admissible.msgId_ne_nil responsesFit within ran with
    ⟨nextServes, requests, nothing⟩
  refine ⟨?_, nextServes, sent, emitted, ⟨side.received, side.fit, side.first,
    fun none => side.nothing (nothing none), fun impossible => nomatch impossible⟩, reported,
    registered⟩
  cases client with
  | waiting dones listens valid empty silent unregistered received =>
      have nextReceived := read (frame request) (by rw [silent]; exact received)
      have onWire := reads.onWire
      rw [silent, eq_comm, List.append_eq_nil_iff] at onWire
      refine .waiting dones listens valid empty onWire.2 unregistered ?_
      rw [onWire.2, ← requests] at nextReceived
      exact nextReceived
  | written dones listens received =>
      have nextReceived := read [] (by rw [List.append_nil]; exact received)
      rw [List.append_nil, ← requests] at nextReceived
      exact .written dones listens nextReceived

theorem Agreeing.serverDone {index : Nat} {result : Result} {server : Server Method Request Result}
    (hasId : request.msgId ≠ []) (responsesFit : ResponsesFit serviceMap)
    (agreeing : Agreeing serviceMap behaviour closure parseFromString request initial state)
    (ran : state.server.finish index result = some server) :
    Agreeing serviceMap behaviour closure parseFromString request initial
      { state with server := server, serverListensWrite := true } := by
  rcases agreeing with ⟨client, serves, sent, emitted, side, reported, registered⟩
  rcases serves.finish hasId responsesFit ran with ⟨nextServes, requests, some⟩
  exact ⟨client.congr rfl rfl rfl rfl (fun _ => rfl) rfl requests, nextServes, sent, emitted,
    ⟨side.received, side.fit, side.first, fun none => absurd none some,
      fun impossible => nomatch impossible⟩, reported, registered⟩

/-- Everything that has ever been appended is written, again. -/
theorem Agreeing.serverOnWrite
    (agreeing : Agreeing serviceMap behaviour closure parseFromString request initial state) :
    Agreeing serviceMap behaviour closure parseFromString request initial
      { state with
        serverListensWrite := !Writes.whole.all
        downward := state.downward ++ Writes.whole.bytes state.server.outBuffer } := by
  rcases agreeing with ⟨client, serves, sent, emitted, side, reported, registered⟩
  have unread := serves.balanced.unread
  refine ⟨client.congr rfl rfl rfl rfl (fun _ => rfl) rfl rfl, serves,
    sent ++ state.server.appended.map Prod.snd, emitted, ⟨?_, ?_, ?_, ?_, ?_⟩, reported,
    registered⟩
  · rw [Writes.bytes_whole, unread]
    exact side.received.extend _
  · rw [List.forall_mem_append]
    exact ⟨side.fit, serves.appended⟩
  · rcases side.first with none | head
    · rw [none, List.nil_append]
      rcases serves.first with ⟨_, empty⟩ | ⟨_, head⟩
      · left
        rw [empty, List.map_nil]
      · exact .inr head
    · right
      rw [List.head?_append, head, Option.some_or]
  · intro none
    have empty : state.server.appended = [] := none
    rw [side.nothing empty, empty]
    rfl
  · intro _ some
    apply List.append_ne_nil_of_right_ne_nil
    rw [ne_eq, List.map_eq_nil_iff]
    exact some

/-- Every decoded message bears the id of the call. -/
theorem Agreeing.clientOnRead {results : List ReadResult} {filled drained : TcpBuffer}
    {messages : List TinyPBProtocol} {rest : Bytes} (admissible : request.Admissible)
    (agreeing : Agreeing serviceMap behaviour closure parseFromString request initial state)
    (reads : Reads state.reader.inBuffer state.downward results filled messages drained rest)
    (smooth : ReadsSmoothly state.reader.inBuffer results) :
    Agreeing serviceMap behaviour closure parseFromString request initial
      { state with
        downward := rest
        reader := (messages.foldl Reader.deliver
          ({ state.reader with inBuffer := drained }, state.call)).1
        call := (messages.foldl Reader.deliver
          ({ state.reader with inBuffer := drained }, state.call)).2 } := by
  rcases agreeing with ⟨client, serves, sent, emitted, side, reported, registered⟩
  have sentAdmissible : ∀ message ∈ sent, message.Admissible := by
    intro message member
    exact (side.fit message member).admissible (measured_admissible admissible)
  have received : Received sent (state.downward ++ []) state.reader.inBuffer emitted := by
    rw [List.append_nil]
    exact side.received
  have nextReceived := received.read sentAdmissible reads smooth
  rw [List.append_nil] at nextReceived
  have decoded := nextReceived.emitted_prefix
  have bear : ∀ message ∈ messages, message.msgId = request.msgId := by
    intro message member
    rcases List.mem_map.mp (decoded.subset (List.mem_append_right emitted member)) with
      ⟨original, isSent, rfl⟩
    exact (side.fit original isSent).msgId
  have inBuffer := deliverAll_inBuffer messages { state.reader with inBuffer := drained } state.call
  have nextSide : ServerSide (answer serviceMap behaviour request.measured) request.measured
      { state with
        downward := rest
        reader := (messages.foldl Reader.deliver
          ({ state.reader with inBuffer := drained }, state.call)).1
        call := (messages.foldl Reader.deliver
          ({ state.reader with inBuffer := drained }, state.call)).2 } sent
      (emitted ++ messages) := by
    refine ⟨?_, side.fit, side.first, side.nothing, side.something⟩
    rw [inBuffer]
    exact nextReceived
  by_cases dones : state.writeDones = []
  · have heard : Heard closure parseFromString initial request.msgId emitted state.timerPending
        { state.reader with inBuffer := drained } state.call := ⟨reported, registered dones⟩
    have later := heard.deliverAll bear
    exact ⟨client.congr rfl rfl rfl rfl (fun some => absurd dones some) rfl rfl, serves, sent,
      emitted ++ messages, nextSide, later.reported, fun _ => later.registered⟩
  · have nothing : sent = [] := by
      cases client with
      | waiting _ _ _ _ _ _ received => exact (nothing_sent received serves side).1
      | written none _ _ => exact absurd none dones
    rw [nothing, List.map_nil, List.prefix_nil, List.append_eq_nil_iff] at decoded
    rcases decoded with ⟨rfl, rfl⟩
    exact ⟨client.congr rfl rfl rfl rfl (fun _ => rfl) rfl rfl, serves, sent, [], nextSide,
      reported, fun none => absurd none dones⟩

theorem Agreeing.timeout (timerPending : state.timerPending = true)
    (agreeing : Agreeing serviceMap behaviour closure parseFromString request initial state) :
    Agreeing serviceMap behaviour closure parseFromString request initial
      { state with timerPending := false, call := onTimeout closure state.call } := by
  rcases agreeing with ⟨client, serves, sent, emitted, side, reported, registered⟩
  rw [timerPending] at reported
  exact ⟨client.congr rfl rfl rfl rfl (fun _ => rfl) rfl rfl, serves, sent, emitted,
    ⟨side.received, side.fit, side.first, side.nothing, side.something⟩, reported.timeout,
    registered⟩

theorem agreeing_step (admissible : request.Admissible) (responsesFit : ResponsesFit serviceMap)
    {event : ExchangeEvent Result} {next : Exchange Method Request Result Response}
    (agreeing : Agreeing serviceMap behaviour closure parseFromString request initial state)
    (step : ExchangeStep serviceMap behaviour closure parseFromString state event next)
    (smooth : Smooth state event) :
    Agreeing serviceMap behaviour closure parseFromString request initial next := by
  cases step with
  | clientOnWrite listens encoded _ =>
      cases smooth
      exact agreeing.clientOnWrite admissible.msgId_ne_nil listens encoded
  | serverOnRead reads ran => exact agreeing.serverOnRead admissible responsesFit reads smooth ran
  | serverDone ran => exact agreeing.serverDone admissible.msgId_ne_nil responsesFit ran
  | serverOnWrite _ _ =>
      cases smooth
      exact agreeing.serverOnWrite
  | clientOnRead reads delivered =>
      subst delivered
      exact agreeing.clientOnRead admissible reads smooth
  | timeout timerPending => exact agreeing.timeout timerPending

theorem answer_measured (serviceMap : ServiceMap Method Request Result)
    (behaviour : TinyPBProtocol → Behaviour Result) (request : TinyPBProtocol) :
    (answer serviceMap behaviour request).measured = answer serviceMap behaviour request := by
  rw [answer]
  split
  split
  · rfl
  · split <;> rfl

/-- The first message that the client decodes can only be the answer. -/
theorem ServerSide.take_emitted
    (side : ServerSide (answer serviceMap behaviour request.measured) request.measured state
      sent emitted) :
    emitted.take 1 <+: [answer serviceMap behaviour request.measured] ∧
      (emitted ≠ [] → emitted.take 1 = [answer serviceMap behaviour request.measured]) := by
  have decoded := side.received.emitted_prefix
  cases emitted with
  | nil => exact ⟨List.nil_prefix, fun some => absurd rfl some⟩
  | cons message emitted =>
      rcases side.first with none | head
      · rw [none, List.map_nil, List.prefix_nil] at decoded
        cases decoded
      · rcases List.head?_eq_some_iff.mp head with ⟨later, rfl⟩
        rw [List.map_cons, List.cons_prefix_cons, answer_measured] at decoded
        have first : (message :: emitted).take 1 =
            [answer serviceMap behaviour request.measured] := by
          rw [decoded.1]
          rfl
        exact ⟨first ▸ List.prefix_rfl, fun _ => first⟩

theorem Agreeing.quiescent
    (agreeing : Agreeing serviceMap behaviour closure parseFromString request initial state)
    (quiescent : state.Quiescent)
    (side : ServerSide (answer serviceMap behaviour request.measured) request.measured state
      sent emitted) : emitted ≠ [] := by
  have written : Received [request] [] state.serverIn state.server.requests := by
    cases agreeing.client with
    | waiting _ listens =>
        rw [quiescent.clientSilent] at listens
        cases listens
    | written _ _ received => exact quiescent.upward ▸ received
  have requests := written.complete
  have appended : state.server.appended ≠ [] := by
    intro empty
    rcases agreeing.serves.first with ⟨none, _⟩ | ⟨_, head⟩
    · rw [none] at requests
      cases requests
    · rw [empty] at head
      cases head
  have received : Received sent [] state.reader.inBuffer emitted :=
    quiescent.downward ▸ side.received
  rw [received.complete, ne_eq, List.map_eq_nil_iff]
  exact side.something quiescent.serverSilent appended

theorem agreeing_run (admissible : request.Admissible) (responsesFit : ResponsesFit serviceMap)
    {controller : RpcController} {response : Response} {events : List (ExchangeEvent Result)}
    {final : Exchange Method Request Result Response}
    (run : ((exchange serviceMap behaviour closure parseFromString request controller
      response).restrict Smooth).Run (.start request controller response) events final) :
    Agreeing serviceMap behaviour closure parseFromString request (.start controller response)
      final := by
  apply run.preserves _ _ (agreeing_start request controller response)
  intro current event next agreeing step
  exact agreeing_step admissible responsesFit agreeing step.1 step.2

theorem mem_responsesIn_iff {message : TinyPBProtocol} {events : List CallEvent} :
    message ∈ responsesIn events ↔ .responds message ∈ events := by
  rw [responsesIn, List.mem_filterMap]
  constructor
  · intro found
    rcases found with ⟨event, member, same⟩
    cases event with
    | responds rspProtocol =>
        cases same
        exact member
    | connectFails => cases same
    | timeoutArrives => cases same
  · intro member
    exact ⟨.responds message, member, rfl⟩

theorem count_responsesIn (message : TinyPBProtocol) (events : List CallEvent) :
    (responsesIn events).count message = events.count (.responds message) := by
  induction events with
  | nil => rfl
  | cons event events induction =>
      cases event <;> simp [responsesIn, List.count_cons] at induction ⊢ <;> simp [induction]

/-- What a call sees of a smooth run. -/
structure SeesOnly (answer : TinyPBProtocol) (state : Exchange Method Request Result Response)
    (seen : List CallEvent) : Prop where
  /-- It sees nothing but the answer, once, and its timeout, once. -/
  events : ∀ event ∈ seen, event = .responds answer ∨ event = .timeoutArrives
  once : seen.Nodup
  /-- It has seen the answer when nothing is left to do. -/
  answered : state.Quiescent → .responds answer ∈ seen
  timedOut : .timeoutArrives ∈ seen ↔ state.timerPending = false

theorem Agreeing.seesOnly
    (agreeing : Agreeing serviceMap behaviour closure parseFromString request initial state) :
    ∃ seen, state.call = handleAll closure parseFromString initial seen ∧
      SeesOnly (answer serviceMap behaviour request.measured) state seen := by
  rcases agreeing.call with ⟨sent, emitted, side, ⟨seen, reached, isSeen⟩, _⟩
  have first := side.take_emitted
  rw [← isSeen.responses] at first
  have timedOut : .timeoutArrives ∈ seen ↔ state.timerPending = false := by
    rw [← List.count_pos_iff, isSeen.timeouts]
    cases state.timerPending <;> decide
  refine ⟨seen, reached, ?_, ?_, ?_, timedOut⟩
  · intro event member
    rcases isSeen.nothingElse event member with rfl | ⟨message, rfl⟩
    · exact .inr rfl
    · have heard := first.1.subset (mem_responsesIn_iff.mpr member)
      rw [List.mem_singleton.mp heard]
      exact .inl rfl
  · rw [List.nodup_iff_count_le_one]
    intro event
    by_cases member : event ∈ seen
    · rcases isSeen.nothingElse event member with rfl | ⟨message, rfl⟩
      · rw [isSeen.timeouts]
        split <;> decide
      · rw [← count_responsesIn]
        exact Nat.le_trans (first.1.sublist.count_le message) List.count_le_length
    · rw [List.count_eq_zero_of_not_mem member]
      exact Nat.zero_le 1
  · intro quiescent
    rw [← mem_responsesIn_iff, first.2 (agreeing.quiescent quiescent side)]
    exact List.mem_singleton_self _

/-! ## An exchange that comes to its end -/

/-- Short frames are read at once. -/
theorem reads_stream {messages : List TinyPBProtocol} (some : messages ≠ [])
    (admissible : ∀ message ∈ messages, message.Admissible)
    (short : (stream messages).length < 128) :
    (∃ filled drained, Reads (.new 128) (stream messages) [.data (stream messages)] filled
      (messages.map TinyPBProtocol.measured) drained []) ∧
      ReadsSmoothly (.new 128) [.data (stream messages)] := by
  have spare := @TcpBuffer.new_spare 128 (by decide) (by decide)
  have room : (TcpBuffer.new 128).writeAble = 128 := by
    simp only [TcpBuffer.writeAble, TcpBuffer.new, List.length_replicate, Nat.sub_zero]
  have fits : (stream messages).length < (TcpBuffer.new 128).writeAble := by
    rw [room]
    exact short
  have nonempty : 0 < (stream messages).length := by
    rcases List.exists_cons_of_ne_nil some with ⟨message, later, rfl⟩
    rw [stream_cons, List.length_append]
    exact Nat.add_pos_left (frame_length_pos message) _
  have same := makeRoom_spare spare
  have ran : readLoop (.new 128) [.data (stream messages)] =
      .some (.readAll, (TcpBuffer.new 128).receive (stream messages)) := by
    simp [readLoop, same, Nat.ne_of_lt fits]
  have readable := TcpBuffer.receive_readable spare fits
  rw [TcpBuffer.new_readable, List.nil_append] at readable
  have filledSpare := TcpBuffer.receive_spare spare fits
  rcases returns_stream filledSpare admissible readable with ⟨_, returns⟩
  constructor
  · refine ⟨_, _, ⟨?_, ⟨_, same, nonempty, Nat.le_of_lt fits, ?_⟩, ran, returns⟩⟩
    · rw [List.append_nil]
      exact (List.append_nil _).symm
    · rw [if_neg (Nat.ne_of_lt fits)]
  · constructor
    · rw [List.forall_mem_singleton]
      exact fits
    · intro filled alsoRan
      rw [ran] at alsoRan
      cases alsoRan
      exact undisturbed_of_stream filledSpare admissible readable

theorem readMessages_inBuffer (reader : Reader (ActiveCall Response))
    (sent : List TinyPBProtocol) :
    (readMessages closure parseFromString reader sent).inBuffer = reader.inBuffer := by
  induction sent generalizing reader with
  | nil => rfl
  | cons message sent induction =>
      rw [readMessages, List.foldl_cons]
      apply (induction _).trans
      rw [Reader.pushReadMessage]
      split <;> rfl

/-- An exchange of short frames that comes to its end. -/
theorem exists_quiescent (admissible : request.Admissible) (responsesFit : ResponsesFit serviceMap)
    (controller : RpcController) (response : Response) (short : (frame request).length < 128)
    {outBuffer : TcpBuffer}
    (encoded : encode [request] (.new 128) = some ([stamp request], outBuffer))
    {server : Server Method Request Result}
    (ran : (Server.new 128).excute serviceMap [(request.measured, behaviour request.measured)] =
      some server)
    (answersShort : (stream (server.appended.map Prod.snd)).length < 128) :
    ∃ events final, ((exchange serviceMap behaviour closure parseFromString request controller
        response).restrict Smooth).Run (.start request controller response) events final ∧
      final.Quiescent ∧ final.timerPending = true := by
  have readable := (encode_spec (TcpBuffer.new_valid (by decide)) encoded).2.1
  rw [TcpBuffer.new_readable, List.nil_append] at readable
  have hasId := admissible.msgId_ne_nil
  have serves := (ServesOnly.new serviceMap behaviour request.measured).excute rfl hasId
    responsesFit ran
  have upward := reads_stream (List.cons_ne_nil request [])
    (by rw [List.forall_mem_singleton]; exact admissible)
    (by rw [stream_cons, stream_nil, List.append_nil]; exact short)
  rcases upward with ⟨⟨filled, drained, reads⟩, smooth⟩
  have someAppended : server.appended.map Prod.snd ≠ [] := by
    rcases serves.1.first with ⟨none, _⟩ | ⟨_, head⟩
    · rw [serves.2] at none
      cases none
    · intro empty
      rw [empty] at head
      cases head
  have downward := reads_stream someAppended
    (fun message member => (serves.1.appended message member).admissible
      (measured_admissible admissible)) answersShort
  rcases downward with ⟨⟨clientFilled, clientDrained, clientReads⟩, clientSmooth⟩
  have inBuffer : (readMessages closure parseFromString
      (@Exchange.start Method Request Result Response request controller response).reader
        [stamp request]).inBuffer = .new 128 := readMessages_inBuffer _ _
  have written : [] ++ Writes.whole.bytes outBuffer = stream [request] := readable
  have answered : [] ++ Writes.whole.bytes server.outBuffer =
      stream (server.appended.map Prod.snd) := serves.1.balanced.unread
  rw [← written] at reads smooth
  rw [← answered, ← inBuffer] at clientReads clientSmooth
  have silent : ∀ outBuffer : TcpBuffer, Writes.whole.Feasible outBuffer := by
    intro outBuffer
    constructor
    · intro count none
      cases none
    · exact fun _ => rfl
  refine ⟨_, _, .cons ⟨.clientOnWrite rfl encoded (silent outBuffer), rfl⟩ (.cons
    ⟨.serverOnRead reads ran, smooth⟩ (.cons ⟨.serverOnWrite rfl (silent server.outBuffer), rfl⟩
      (.cons ⟨.clientOnRead clientReads rfl, clientSmooth⟩ (.nil _)))), ⟨rfl, rfl, rfl, rfl⟩, rfl⟩

/-! ## What the caller gets -/

/-- The payload that the client gets of an accepted request: what the closure
serializes, or nothing where the service keeps the closure. -/
def Returns (call : Call Method Request Result) (pbData : Bytes) : Behaviour Result → Prop
  | .runsDone result => call.service.serializeToString call.method result = some pbData
  | .keepsDone => pbData = []

theorem dispatch_accepted {request : TinyPBProtocol} {call : Call Method Request Result}
    (dispatched : (dispatch serviceMap request {}).2 = some call) :
    (dispatch serviceMap request {}).1 =
      { msgId := request.msgId, methodName := request.methodName } := by
  simp only [dispatch] at dispatched ⊢
  split at dispatched
  · cases dispatched
  · split at dispatched
    · cases dispatched
    · split at dispatched
      · cases dispatched
      · split at dispatched
        · cases dispatched
        · simp [*]

theorem stamp_payload (message : TinyPBProtocol) :
    (stamp message).errCode = message.errCode ∧ (stamp message).pbData = message.pbData := by
  rw [stamp, withMsgId]
  split <;> exact ⟨rfl, rfl⟩

theorem answer_of_returns {request : TinyPBProtocol} {call : Call Method Request Result}
    {pbData : Bytes} (dispatched : (dispatch serviceMap request {}).2 = some call)
    (returns : Returns call pbData (behaviour request)) :
    (answer serviceMap behaviour request).errCode = 0 ∧
      (answer serviceMap behaviour request).pbData = pbData := by
  cases behaves : behaviour request with
  | runsDone result =>
      rw [behaves] at returns
      have serialized : call.service.serializeToString call.method result = some pbData := returns
      have completed : answer serviceMap behaviour request =
          stamp (complete call result (dispatch serviceMap request {}).1) := by
        simp only [answer, dispatched, behaves]
      have payload := stamp_payload (complete call result (dispatch serviceMap request {}).1)
      simp only [complete, serialized] at payload
      rw [completed, complete, serialized]
      exact payload
  | keepsDone =>
      rw [behaves] at returns
      have placeholder : answer serviceMap behaviour request =
          stamp (dispatch serviceMap request {}).1 := by
        simp only [answer, dispatched, behaves]
      have payload := stamp_payload (dispatch serviceMap request {}).1
      rw [dispatch_accepted dispatched] at payload
      rw [placeholder, dispatch_accepted dispatched, returns]
      exact payload

/-- A call whose timer has not been run has seen the answer alone. -/
theorem SeesOnly.inTime {answered : TinyPBProtocol} {seen : List CallEvent}
    (sees : SeesOnly answered state seen) (quiescent : state.Quiescent)
    (inTime : state.timerPending = true) : seen = [.responds answered] := by
  have noTimeout : .timeoutArrives ∉ seen := by
    rw [sees.timedOut, inTime]
    decide
  have onlyAnswer : ∀ event ∈ seen, event = .responds answered := by
    intro event member
    rcases sees.events event member with same | rfl
    · exact same
    · exact absurd member noTimeout
  have replicated := List.eq_replicate_of_mem onlyAnswer
  have once := List.nodup_iff_count_le_one.mp sees.once (.responds answered)
  have some := List.length_pos_of_mem (sees.answered quiescent)
  rw [replicated, List.count_replicate_self] at once
  have single : seen.length = 1 := by omega
  rw [replicated, single]
  rfl

/-- In every smooth run the service gets the request at most once, and the call
goes the way it would go if the answer were given to it on the spot. -/
theorem remote_call (admissible : request.Admissible) (responsesFit : ResponsesFit serviceMap)
    {controller : RpcController} {response : Response} {events : List (ExchangeEvent Result)}
    {final : Exchange Method Request Result Response}
    (run : ((exchange serviceMap behaviour closure parseFromString request controller
      response).restrict Smooth).Run (.start request controller response) events final) :
    final.server.requests <+: [request.measured] ∧
      ∃ seen, final.call = handleAll closure parseFromString (.start controller response) seen ∧
        SeesOnly (answer serviceMap behaviour request.measured) final seen := by
  have agreeing := agreeing_run admissible responsesFit run
  refine ⟨?_, agreeing.seesOnly⟩
  rcases agreeing.serves.first with ⟨none, _⟩ | ⟨one, _⟩
  · exact none ▸ List.nil_prefix
  · exact one ▸ List.prefix_rfl

/-- A smooth run in which the timer is not run leads to what a local call of the
service would, if the service runs its closure inside `CallMethod`. -/
theorem remote_call_returns (admissible : request.Admissible)
    (responsesFit : ResponsesFit serviceMap)
    {controller : RpcController} {response : Response} {events : List (ExchangeEvent Result)}
    {final : Exchange Method Request Result Response}
    (run : ((exchange serviceMap behaviour closure parseFromString request controller
      response).restrict Smooth).Run (.start request controller response) events final)
    (quiescent : final.Quiescent) (inTime : final.timerPending = true)
    {call : Call Method Request Result} {pbData : Bytes} {value : Response}
    (dispatched : (dispatch serviceMap request.measured {}).2 = some call)
    (returns : Returns call pbData (behaviour request.measured))
    (parses : parseFromString pbData = (value, true)) :
    final.call =
      callBack closure { ActiveCall.start controller response with response := value } := by
  rcases (agreeing_run admissible responsesFit run).seesOnly with ⟨seen, reached, sees⟩
  rcases answer_of_returns dispatched returns with ⟨noError, payload⟩
  rw [reached, sees.inTime quiescent inTime, handleAll, List.foldl_cons, List.foldl_nil, handle,
    onResponse, noError, payload, parses]
  rfl

end Whole

/-! ## One exchange -/

/-- A service with one method, which takes any bytes and returns two. -/
def orderService : Service Unit Bytes Unit where
  findMethodByName name := if name = ascii "makeOrder" then some () else none
  parseFromString _ pbData := some pbData
  serializeToString _ _ := some (ascii "42")

def orderServices (name : Bytes) : Option (Service Unit Bytes Unit) :=
  if name = ascii "Order" then some orderService else none

theorem orderServices_fit : ResponsesFit orderServices := by
  intro name service registered method result pbData serialized
  simp only [orderServices, Option.ite_none_right_eq_some] at registered
  rcases registered with ⟨_, ⟨⟩⟩
  cases serialized
  decide

/-- A closure that leaves everything as it is. -/
def leaveAll (controller : RpcController) (response : Bytes) : RpcController × Bytes :=
  (controller, response)

theorem makeOrder_admissible : makeOrder.Admissible := by
  constructor <;> decide +kernel

theorem makeOrder_quiescent :
    ∃ events final, ((exchange orderServices (fun _ => .runsDone ()) (some leaveAll)
        (fun pbData => (pbData, true)) makeOrder {} []).restrict Smooth).Run
          (.start makeOrder {} []) events final ∧
      final.Quiescent ∧ final.timerPending = true := by
  have encoded : ((encode [makeOrder] (.new 128)).map Prod.fst) = some [stamp makeOrder] := by
    decide +kernel
  rcases Option.map_eq_some_iff.mp encoded with ⟨⟨sent, outBuffer⟩, encoded, rfl⟩
  have accepted : (((Server.new 128).excute orderServices [(makeOrder.measured, .runsDone ())]).map
      fun server => (stream (server.appended.map Prod.snd)).length) = some 88 := by
    decide +kernel
  rcases Option.map_eq_some_iff.mp accepted with ⟨server, ran, length⟩
  exact exists_quiescent makeOrder_admissible orderServices_fit {} [] (by decide +kernel) encoded
    ran (by rw [length]; decide)

theorem remote_call_makeOrder :
    ∃ final : Exchange Unit Bytes Unit Bytes, final.Quiescent ∧
      final.server.requests <+: [makeOrder.measured] ∧
      ∃ seen, final.call =
          handleAll (some leaveAll) (fun pbData => (pbData, true)) (.start {} []) seen ∧
        SeesOnly (answer orderServices (fun _ => .runsDone ()) makeOrder.measured) final seen := by
  rcases makeOrder_quiescent with ⟨events, final, run, quiescent, _⟩
  exact ⟨final, quiescent, remote_call makeOrder_admissible orderServices_fit run⟩

theorem remote_call_returns_makeOrder :
    ∃ final : Exchange Unit Bytes Unit Bytes, final.call = callBack (some leaveAll)
      { controller := {}, response := ascii "42", completions := [] } := by
  rcases makeOrder_quiescent with ⟨events, final, run, quiescent, inTime⟩
  have dispatched : (dispatch orderServices makeOrder.measured {}).2 =
      some { service := orderService, method := (), request := [] } := by
    have named : parseServiceFullName makeOrder.measured.methodName =
        some (ascii "Order", ascii "makeOrder") := by
      decide +kernel
    simp only [dispatch, named]
    rfl
  exact ⟨final, remote_call_returns makeOrder_admissible orderServices_fit run quiescent inTime
    dispatched rfl rfl⟩

end NetRpc
