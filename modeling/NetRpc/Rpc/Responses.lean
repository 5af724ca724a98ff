import NetRpc.Rpc.Dispatcher
import NetRpc.Foundation.Transition

/-! # The responses of a server connection

The server branch of `excute` dispatches a batch of requests and encodes their
response objects. The closures of the dispatched calls encode the same objects
through `reply`, at once or at any later time.
-/

namespace NetRpc.TcpConnection

open RpcDispatcher

variable {Method Request Response : Type}

/-- When a service runs its `done` closure. -/
inductive Behaviour (Response : Type)
  /-- Inside `CallMethod`, with the response object holding `result`. -/
  | runsDone (result : Response)
  /-- After `CallMethod` has returned. -/
  | keepsDone

/-- A server-side connection. Requests and their response objects are numbered
in the order in which they are dispatched. -/
structure Server (Method Request Response : Type) where
  outBuffer : TcpBuffer
  requests : List TinyPBProtocol
  responses : List TinyPBProtocol
  /-- The closures that have not been run. -/
  pending : List (Nat × Call Method Request Response)
  /-- The messages whose frames have been appended to the out-buffer, each with
  the number of its response object. -/
  appended : List (Nat × TinyPBProtocol)

namespace Server

def new (size : Nat) : Server Method Request Response where
  outBuffer := .new size
  requests := []
  responses := []
  pending := []
  appended := []

/-- Encode one response object into the out-buffer. The result is `none` when
the out-buffer cannot grow. -/
def encode (server : Server Method Request Response) (index : Nat) :
    Option (Server Method Request Response) := do
  let response ← server.responses[index]?
  let (stamped, bytes) := TinyPBCoder.encodeTinyPB response
  let outBuffer ← server.outBuffer.writeToBuffer bytes
  some { server with
    outBuffer
    responses := server.responses.set index stamped
    appended := server.appended ++ [(index, stamped)] }

/-- The closure of `call`, run while the response object of the service holds
`result`. -/
def runDone (server : Server Method Request Response) (index : Nat)
    (call : Call Method Request Response) (result : Response) :
    Option (Server Method Request Response) := do
  let response ← server.responses[index]?
  encode { server with
    responses := server.responses.set index (complete call result response) } index

/-- A request has been dispatched and nothing else has been done for it. -/
def arrive (server : Server Method Request Response)
    (request response : TinyPBProtocol) : Server Method Request Response :=
  { server with
    requests := server.requests ++ [request]
    responses := server.responses ++ [response] }

/-- The service keeps the closure of `call`. -/
def await (server : Server Method Request Response) (index : Nat)
    (call : Call Method Request Response) : Server Method Request Response :=
  { server with pending := server.pending ++ [(index, call)] }

/-- Dispatch one request. -/
def handle (serviceMap : ServiceMap Method Request Response)
    (server : Server Method Request Response)
    (arrival : TinyPBProtocol × Behaviour Response) :
    Option (Server Method Request Response) :=
  let index := server.responses.length
  let (response, call) := dispatch serviceMap arrival.1 {}
  let arrived := server.arrive arrival.1 response
  match call with
  | none => some arrived
  | some call =>
      match arrival.2 with
      | .runsDone result => arrived.runDone index call result
      | .keepsDone => some (arrived.await index call)

/-- The server branch of `excute` after decoding. -/
def excute (serviceMap : ServiceMap Method Request Response)
    (server : Server Method Request Response)
    (batch : List (TinyPBProtocol × Behaviour Response)) :
    Option (Server Method Request Response) := do
  let handled ← batch.foldlM (handle serviceMap) server
  (List.range' server.responses.length batch.length).foldlM encode handled

/-- The closure for request number `index` is no longer kept. -/
def release (server : Server Method Request Response) (index : Nat) :
    Server Method Request Response :=
  { server with pending := server.pending.eraseP (·.1 == index) }

/-- A kept closure is run. -/
def finish (server : Server Method Request Response) (index : Nat) (result : Response) :
    Option (Server Method Request Response) := do
  let (_, call) ← server.pending.find? (·.1 == index)
  (server.release index).runDone index call result

end Server

inductive ServerEvent (Response : Type)
  | excute (batch : List (TinyPBProtocol × Behaviour Response))
  | done (index : Nat) (result : Response)

namespace ServerEvent

def requests : ServerEvent Response → List TinyPBProtocol
  | .excute batch => batch.map Prod.fst
  | .done _ _ => []

end ServerEvent

/-- Runs of a connection made with an out-buffer of `size` bytes. -/
def serving (serviceMap : ServiceMap Method Request Response) (size : Nat) :
    Transition.System (Server Method Request Response) (ServerEvent Response) where
  Initial server := server = .new size
  Step server event next :=
    match event with
    | .excute batch => server.excute serviceMap batch = some next
    | .done index result => server.finish index result = some next

/-- The messages that have been appended for request number `index`. -/
def Server.framesOf (server : Server Method Request Response) (index : Nat) :
    List TinyPBProtocol :=
  (server.appended.filter (·.1 == index)).map Prod.snd

/-- Every request has exactly one frame, with its id and its method name and
with what its response object finally holds. -/
def Server.Answered (server : Server Method Request Response) : Prop :=
  ∀ index request response, server.requests[index]? = some request →
    server.responses[index]? = some response →
    ∃ message, server.framesOf index = [message] ∧
      message.msgId = request.msgId ∧ message.methodName = request.methodName ∧
      message.errCode = response.errCode ∧ message.pbData = response.pbData

/-! ## What a connection owes for a request -/

section Accounts

open TinyPBCoder

variable (serviceMap : ServiceMap Method Request Response)

/-- The number of closures for request number `index` that have not been run. -/
def Server.awaited (server : Server Method Request Response) (index : Nat) : Nat :=
  server.pending.countP (·.1 == index)

/-- The out-buffer holds the appended frames, and nothing refers to a request
that has not been dispatched. -/
structure Server.Consistent (server : Server Method Request Response) : Prop where
  valid : server.outBuffer.Valid
  unread : server.outBuffer.readable = stream (server.appended.map Prod.snd)
  numbered : server.responses.length = server.requests.length
  untouched : ∀ index, server.requests.length ≤ index →
    server.framesOf index = [] ∧ server.awaited index = 0

/-- A rejected request gets its frame from the encoding of `replay_messages`
alone. A dispatched one gets a frame from there and one from its closure. -/
structure Accounted (server : Server Method Request Response) (replayed : Bool)
    (index : Nat) (request : TinyPBProtocol) : Prop where
  rejected : Rejects serviceMap request →
    server.awaited index = 0 ∧
      if replayed then
        server.framesOf index = [stamp (dispatch serviceMap request {}).1] ∧
          server.responses[index]? = some (stamp (dispatch serviceMap request {}).1)
      else
        server.framesOf index = [] ∧
          server.responses[index]? = some (dispatch serviceMap request {}).1
  dispatched : ¬Rejects serviceMap request →
    (server.framesOf index).length + server.awaited index = if replayed then 2 else 1

/-- All requests are accounted for. The response objects of those in front of
`replayed` have been encoded by `excute`. -/
structure Balanced (server : Server Method Request Response) (replayed : Nat) : Prop
    extends server.Consistent where
  within : replayed ≤ server.requests.length
  accounts : ∀ index request, server.requests[index]? = some request →
    Accounted serviceMap server (decide (index < replayed)) index request

end Accounts

/-! ## Encoding one response object -/

section Encode

open TinyPBCoder

variable {server next : Server Method Request Response} {index : Nat}
variable {response : TinyPBProtocol}

/-- The effect of encoding the response object with number `index`. -/
structure Encodes (server next : Server Method Request Response) (index : Nat)
    (response : TinyPBProtocol) : Prop where
  found : server.responses[index]? = some response
  written : server.outBuffer.writeToBuffer (frame response) = some next.outBuffer
  requests : next.requests = server.requests
  pending : next.pending = server.pending
  responses : next.responses = server.responses.set index (stamp response)
  appended : next.appended = server.appended ++ [(index, stamp response)]

theorem encodes_of_encode (encoded : server.encode index = some next) :
    ∃ response, Encodes server next index response := by
  simp only [Server.encode, encodeTinyPB, Option.bind_eq_bind, Option.bind_eq_some_iff,
    Option.some.injEq] at encoded
  rcases encoded with ⟨response, found, outBuffer, written, rfl⟩
  exact ⟨response, found, written, rfl, rfl, rfl, rfl⟩

/-- The frame of a message is that of the message as the encoder leaves it. -/
theorem frame_stamp (message : TinyPBProtocol) : frame (stamp message) = frame message := by
  have unchanged : withMsgId (stamp message) = (withMsgId message).measured := by
    by_cases empty : message.msgId.isEmpty
    · simp [withMsgId, stamp, TinyPBProtocol.measured, empty, ascii]
    · simp [withMsgId, stamp, TinyPBProtocol.measured, empty]
  rw [frame, unchanged]
  rfl

namespace Encodes

theorem framesOf_self (encodes : Encodes server next index response) :
    next.framesOf index = server.framesOf index ++ [stamp response] := by
  simp [Server.framesOf, encodes.appended]

theorem framesOf_other (encodes : Encodes server next index response) {other : Nat}
    (different : index ≠ other) : next.framesOf other = server.framesOf other := by
  simp [Server.framesOf, encodes.appended, different]

theorem awaited_eq (encodes : Encodes server next index response) (other : Nat) :
    next.awaited other = server.awaited other :=
  congrArg (List.countP _) encodes.pending

theorem consistent (encodes : Encodes server next index response)
    (consistent : server.Consistent) (below : index < server.requests.length) :
    next.Consistent := by
  constructor
  · exact TcpBuffer.writeToBuffer_valid consistent.valid encodes.written
  · rw [TcpBuffer.writeToBuffer_readable consistent.valid encodes.written,
      consistent.unread, encodes.appended, List.map_append, stream_append,
      List.map_singleton, stream_cons, frame_stamp, stream_nil, List.append_nil]
  · rw [encodes.responses, List.length_set, encodes.requests]
    exact consistent.numbered
  · intro other beyond
    rw [encodes.requests] at beyond
    have different : index ≠ other := Nat.ne_of_lt (Nat.lt_of_lt_of_le below beyond)
    rw [encodes.framesOf_other different, encodes.awaited_eq]
    exact consistent.untouched other beyond

end Encodes

end Encode

section Accounting

open TinyPBCoder

variable {serviceMap : ServiceMap Method Request Response}
variable {server next : Server Method Request Response}
variable {index replayed : Nat} {request response : TinyPBProtocol}

/-- The account of a request only depends on its frames, its closures and its
response object. -/
theorem Accounted.congr {isReplayed : Bool}
    (accounted : Accounted serviceMap server isReplayed index request)
    (frames : next.framesOf index = server.framesOf index)
    (waits : next.awaited index = server.awaited index)
    (same : next.responses[index]? = server.responses[index]?) :
    Accounted serviceMap next isReplayed index request := by
  constructor
  · rw [frames, waits, same]
    exact accounted.rejected
  · rw [frames, waits]
    exact accounted.dispatched

theorem Encodes.accounted_other {isReplayed : Bool} {other : Nat}
    (encodes : Encodes server next index response) (different : index ≠ other)
    (accounted : Accounted serviceMap server isReplayed other request) :
    Accounted serviceMap next isReplayed other request := by
  apply accounted.congr (encodes.framesOf_other different) (encodes.awaited_eq other)
  rw [encodes.responses]
  exact List.getElem?_set_ne different

/-- The encoding of `replay_messages` gives a request its frame. -/
theorem Encodes.accounted_self (encodes : Encodes server next index response)
    (accounted : Accounted serviceMap server false index request) :
    Accounted serviceMap next true index request := by
  have below := (List.getElem?_eq_some_iff.mp encodes.found).1
  constructor
  · intro rejects
    rcases accounted.rejected rejects with ⟨waits, unanswered, same⟩
    rw [encodes.found] at same
    cases same
    rw [encodes.awaited_eq, encodes.framesOf_self, encodes.responses, unanswered]
    exact ⟨waits, rfl, List.getElem?_set_self below⟩
  · intro accepts
    have total := accounted.dispatched accepts
    simp only [Bool.false_eq_true, if_false] at total
    rw [encodes.awaited_eq, encodes.framesOf_self, List.length_append, List.length_singleton]
    simp only [if_true]
    omega

theorem Balanced.replay (balanced : Balanced serviceMap server index)
    (below : index < server.requests.length) (encoded : server.encode index = some next) :
    Balanced serviceMap next (index + 1) ∧ next.requests = server.requests := by
  rcases encodes_of_encode encoded with ⟨response, encodes⟩
  have consistent := encodes.consistent balanced.toConsistent below
  refine ⟨⟨consistent, encodes.requests ▸ below, fun other request present => ?_⟩,
    encodes.requests⟩
  rw [encodes.requests] at present
  have accounted := balanced.accounts other request present
  by_cases same : index = other
  · rw [← same] at accounted ⊢
    rw [decide_eq_false (Nat.lt_irrefl index)] at accounted
    rw [decide_eq_true (Nat.lt_succ_self index)]
    exact encodes.accounted_self accounted
  · have unmoved : decide (other < index + 1) = decide (other < index) := by
      rw [decide_eq_decide]
      omega
    rw [unmoved]
    exact encodes.accounted_other same accounted

/-- All requests are accounted for but the dispatched one with number `index`,
which lacks the frame of its closure. -/
structure Lacking (serviceMap : ServiceMap Method Request Response)
    (server : Server Method Request Response) (replayed index : Nat) : Prop
    extends server.Consistent where
  within : replayed ≤ server.requests.length
  below : index < server.requests.length
  others : ∀ other request, index ≠ other → server.requests[other]? = some request →
    Accounted serviceMap server (decide (other < replayed)) other request
  dispatched : ∀ request, server.requests[index]? = some request →
    ¬Rejects serviceMap request
  lacks : (server.framesOf index).length + server.awaited index + 1 =
    if index < replayed then 2 else 1

theorem Lacking.runDone (lacking : Lacking serviceMap server replayed index)
    {call : Call Method Request Response} {result : Response}
    (ran : server.runDone index call result = some next) :
    Balanced serviceMap next replayed ∧ next.requests = server.requests := by
  simp only [Server.runDone, Option.bind_eq_bind, Option.bind_eq_some_iff] at ran
  rcases ran with ⟨response, found, encoded⟩
  rcases encodes_of_encode encoded with ⟨completed, encodes⟩
  have numbered : (server.responses.set index (complete call result response)).length =
      server.requests.length := List.length_set.trans lacking.numbered
  have consistent := encodes.consistent
    ⟨lacking.valid, lacking.unread, numbered, lacking.untouched⟩ lacking.below
  refine ⟨⟨consistent, encodes.requests ▸ lacking.within, fun other request present => ?_⟩,
    encodes.requests⟩
  rw [encodes.requests] at present
  by_cases same : index = other
  · rw [← same] at present ⊢
    have accepts := lacking.dispatched request present
    refine ⟨fun rejects => absurd rejects accepts, fun _ => ?_⟩
    have lacks := lacking.lacks
    rw [encodes.awaited_eq, encodes.framesOf_self, List.length_append, List.length_singleton]
    simp only [decide_eq_true_eq]
    exact (Nat.add_right_comm _ _ _).trans lacks
  · apply encodes.accounted_other same
    apply (lacking.others other request same present).congr
    · rfl
    · rfl
    · exact List.getElem?_set_ne same

theorem arrive_consistent (consistent : server.Consistent) (request response : TinyPBProtocol) :
    (server.arrive request response).Consistent where
  valid := consistent.valid
  unread := consistent.unread
  numbered := by
    simp only [Server.arrive, List.length_append, consistent.numbered, List.length_singleton]
  untouched := by
    intro index beyond
    simp only [Server.arrive, List.length_append, List.length_singleton] at beyond
    exact consistent.untouched index (by omega)

theorem arrive_accounts (balanced : Balanced serviceMap server replayed)
    (response : TinyPBProtocol) {other : Nat} {present : TinyPBProtocol}
    (earlier : server.requests.length ≠ other)
    (here : (server.arrive request response).requests[other]? = some present) :
    Accounted serviceMap (server.arrive request response) (decide (other < replayed)) other
      present := by
  have below : other < server.requests.length := by
    have inside := (List.getElem?_eq_some_iff.mp here).1
    simp only [Server.arrive, List.length_append, List.length_singleton] at inside
    omega
  rw [Server.arrive, List.getElem?_append_left below] at here
  apply (balanced.accounts other present here).congr
  · rfl
  · rfl
  · exact List.getElem?_append_left (balanced.numbered ▸ below)

theorem awaited_await (server : Server Method Request Response)
    (call : Call Method Request Response) (other : Nat) :
    (server.await index call).awaited other =
      server.awaited other + if index = other then 1 else 0 := by
  by_cases same : index = other <;> simp [Server.await, Server.awaited, same]

/-- A dispatched request that has just arrived lacks one frame. -/
theorem Balanced.arrive (balanced : Balanced serviceMap server replayed)
    (accepts : ¬Rejects serviceMap request) (response : TinyPBProtocol) :
    Lacking serviceMap (server.arrive request response) replayed server.requests.length := by
  have untouched := balanced.untouched server.requests.length (Nat.le_refl _)
  constructor
  · exact arrive_consistent balanced.toConsistent request response
  · exact Nat.le_trans balanced.within (by simp [Server.arrive])
  · simp [Server.arrive]
  · intro other present different
    exact arrive_accounts balanced response different
  · intro present isPresent
    rw [Server.arrive, List.getElem?_concat_length] at isPresent
    cases isPresent
    exact accepts
  · rw [if_neg (Nat.not_lt.mpr balanced.within)]
    change (server.framesOf _).length + server.awaited _ + 1 = 1
    rw [untouched.1, untouched.2, List.length_nil]

/-- The closure that a service keeps stands for the missing frame. -/
theorem Lacking.await (lacking : Lacking serviceMap server replayed index)
    (call : Call Method Request Response) :
    Balanced serviceMap (server.await index call) replayed := by
  constructor
  · refine ⟨lacking.valid, lacking.unread, lacking.numbered, fun other beyond => ?_⟩
    have below := lacking.below
    have untouched := lacking.untouched other beyond
    rw [awaited_await, if_neg (Nat.ne_of_lt (Nat.lt_of_lt_of_le below beyond))]
    exact untouched
  · exact lacking.within
  · intro other request present
    by_cases same : index = other
    · rw [← same] at present ⊢
      have accepts := lacking.dispatched request present
      refine ⟨fun rejects => absurd rejects accepts, fun _ => ?_⟩
      rw [awaited_await, if_pos rfl]
      simp only [decide_eq_true_eq]
      exact lacking.lacks
    · refine (lacking.others other request same present).congr ?_ ?_ ?_
      · rfl
      · rw [awaited_await, if_neg same]
        rfl
      · rfl

/-- A rejected request has no frame before `replay_messages` is encoded. -/
theorem Balanced.reject (balanced : Balanced serviceMap server replayed)
    (rejects : Rejects serviceMap request) :
    Balanced serviceMap (server.arrive request (dispatch serviceMap request {}).1)
      replayed := by
  have untouched := balanced.untouched server.requests.length (Nat.le_refl _)
  constructor
  · exact arrive_consistent balanced.toConsistent request _
  · exact Nat.le_trans balanced.within (by simp [Server.arrive])
  · intro other present isPresent
    by_cases same : server.requests.length = other
    · rw [← same] at isPresent ⊢
      rw [Server.arrive, List.getElem?_concat_length] at isPresent
      cases isPresent
      rw [decide_eq_false (Nat.not_lt.mpr balanced.within)]
      refine ⟨fun _ => ⟨untouched.2, untouched.1, ?_⟩, fun accepts => absurd rejects accepts⟩
      rw [Server.arrive, ← balanced.numbered]
      exact List.getElem?_concat_length
    · exact arrive_accounts balanced _ same isPresent

theorem Balanced.handle (balanced : Balanced serviceMap server replayed)
    {arrival : TinyPBProtocol × Behaviour Response}
    (handled : server.handle serviceMap arrival = some next) :
    Balanced serviceMap next replayed ∧ next.requests = server.requests ++ [arrival.1] := by
  rcases arrival with ⟨request, behaviour⟩
  cases dispatched : (dispatch serviceMap request {}).2 with
  | none =>
      simp only [Server.handle, dispatched, Option.some.injEq] at handled
      rw [← handled]
      exact ⟨balanced.reject dispatched, rfl⟩
  | some call =>
      have accepts : ¬Rejects serviceMap request := by
        rw [Rejects, dispatched]
        exact Option.some_ne_none call
      have lacking := balanced.arrive accepts (dispatch serviceMap request {}).1
      cases behaviour with
      | runsDone result =>
          simp only [Server.handle, dispatched, balanced.numbered] at handled
          exact lacking.runDone handled
      | keepsDone =>
          simp only [Server.handle, dispatched, balanced.numbered, Option.some.injEq] at handled
          rw [← handled]
          exact ⟨lacking.await call, rfl⟩

theorem Balanced.handleAll : ∀ {batch : List (TinyPBProtocol × Behaviour Response)}
    {server : Server Method Request Response}, Balanced serviceMap server replayed →
    batch.foldlM (Server.handle serviceMap) server = some next →
    Balanced serviceMap next replayed ∧
      next.requests = server.requests ++ batch.map Prod.fst
  | [], _, balanced, ran => by
      cases ran
      exact ⟨balanced, (List.append_nil _).symm⟩
  | arrival :: batch, server, balanced, ran => by
      simp only [List.foldlM_cons, Option.bind_eq_bind, Option.bind_eq_some_iff] at ran
      rcases ran with ⟨middle, handled, rest⟩
      rcases balanced.handle handled with ⟨middleBalanced, middleRequests⟩
      rcases middleBalanced.handleAll rest with ⟨nextBalanced, nextRequests⟩
      refine ⟨nextBalanced, ?_⟩
      rw [nextRequests, middleRequests, List.map_cons, List.append_assoc, List.singleton_append]

theorem Balanced.replayAll : ∀ {count start : Nat} {server : Server Method Request Response},
    Balanced serviceMap server start → start + count ≤ server.requests.length →
    (List.range' start count).foldlM Server.encode server = some next →
    Balanced serviceMap next (start + count) ∧ next.requests = server.requests
  | 0, _, _, balanced, _, ran => by
      cases ran
      exact ⟨balanced, rfl⟩
  | count + 1, start, server, balanced, within, ran => by
      simp only [List.range'_succ, List.foldlM_cons, Option.bind_eq_bind,
        Option.bind_eq_some_iff] at ran
      rcases ran with ⟨middle, encoded, rest⟩
      rcases balanced.replay (by omega) encoded with ⟨middleBalanced, middleRequests⟩
      have later : start + 1 + count ≤ middle.requests.length := by
        rw [middleRequests]
        omega
      rcases middleBalanced.replayAll later rest with ⟨nextBalanced, nextRequests⟩
      rw [Nat.add_assoc, Nat.add_comm 1] at nextBalanced
      exact ⟨nextBalanced, nextRequests.trans middleRequests⟩

/-! ## Runs -/

/-- Between two events everything has been encoded by `excute`. -/
theorem balanced_excute {batch : List (TinyPBProtocol × Behaviour Response)}
    (balanced : Balanced serviceMap server server.requests.length)
    (ran : server.excute serviceMap batch = some next) :
    Balanced serviceMap next next.requests.length ∧
      next.requests = server.requests ++ batch.map Prod.fst := by
  simp only [Server.excute, Option.bind_eq_bind, Option.bind_eq_some_iff] at ran
  rcases ran with ⟨handled, dispatched, replayed⟩
  rcases balanced.handleAll dispatched with ⟨handledBalanced, handledRequests⟩
  have size : server.requests.length + batch.length = handled.requests.length := by
    rw [handledRequests, List.length_append, List.length_map]
  rw [balanced.numbered] at replayed
  rcases handledBalanced.replayAll (Nat.le_of_eq size) replayed with
    ⟨nextBalanced, nextRequests⟩
  rw [size, ← nextRequests] at nextBalanced
  exact ⟨nextBalanced, nextRequests.trans handledRequests⟩

theorem awaited_release {entry : Nat × Call Method Request Response}
    (kept : entry ∈ server.pending) (numbered : entry.1 = index) (other : Nat) :
    server.awaited other =
      (server.release index).awaited other + if index = other then 1 else 0 := by
  rcases @List.exists_of_eraseP _ (·.1 == index) _ _ kept (beq_iff_eq.mpr numbered) with
    ⟨erased, before, after, _, same, split, rest⟩
  rw [beq_iff_eq] at same
  rw [Server.awaited, Server.awaited, Server.release, rest, split, List.countP_append,
    List.countP_append, List.countP_cons, same, Nat.add_assoc]
  simp only [beq_iff_eq]

theorem balanced_finish {result : Response}
    (balanced : Balanced serviceMap server server.requests.length)
    (ran : server.finish index result = some next) :
    Balanced serviceMap next next.requests.length ∧ next.requests = server.requests := by
  simp only [Server.finish, Option.bind_eq_bind, Option.bind_eq_some_iff] at ran
  rcases ran with ⟨⟨number, call⟩, found, completed⟩
  have kept := List.mem_of_find?_eq_some found
  have matched := List.find?_some found
  have numbered : number = index := beq_iff_eq.mp matched
  have released := @awaited_release _ _ _ server index _ kept numbered
  have waits := released index
  rw [if_pos rfl] at waits
  have below : index < server.requests.length := by
    by_contra beyond
    have untouched := (balanced.untouched index (Nat.not_lt.mp beyond)).2
    omega
  have lacking : Lacking serviceMap (server.release index) server.requests.length index := by
    constructor
    · refine ⟨balanced.valid, balanced.unread, balanced.numbered, fun other beyond => ?_⟩
      have untouched := balanced.untouched other beyond
      refine ⟨untouched.1, ?_⟩
      have less := released other
      omega
    · exact Nat.le_refl _
    · exact below
    · intro other request different present
      apply (balanced.accounts other request present).congr
      · rfl
      · rw [released other, if_neg different]
        rfl
      · rfl
    · intro request present rejects
      have none := ((balanced.accounts index request present).rejected rejects).1
      omega
    · have present := List.getElem?_eq_getElem below
      have accounted := balanced.accounts index _ present
      have accepts : ¬Rejects serviceMap server.requests[index] := by
        intro rejects
        have none := (accounted.rejected rejects).1
        omega
      have total := accounted.dispatched accepts
      simp only [below, decide_true, if_true] at total
      rw [if_pos below]
      change (server.framesOf index).length + _ + 1 = 2
      omega
  rcases lacking.runDone completed with ⟨nextBalanced, nextRequests⟩
  have same : next.requests = server.requests := nextRequests
  exact ⟨same ▸ nextBalanced, same⟩

theorem balanced_run {size : Nat} {events : List (ServerEvent Response)}
    (run : (serving serviceMap size).Run server events next)
    (balanced : Balanced serviceMap server server.requests.length) :
    Balanced serviceMap next next.requests.length ∧
      next.requests = server.requests ++ events.flatMap ServerEvent.requests := by
  induction run with
  | nil => exact ⟨balanced, (List.append_nil _).symm⟩
  | @cons current middle final event events step _ induction =>
      have stepped : Balanced serviceMap middle middle.requests.length ∧
          middle.requests = current.requests ++ event.requests := by
        cases event with
        | excute batch => exact balanced_excute balanced step
        | done index result =>
            have finished := balanced_finish balanced step
            exact ⟨finished.1, finished.2.trans (List.append_nil _).symm⟩
      rcases induction stepped.1 with ⟨finalBalanced, finalRequests⟩
      refine ⟨finalBalanced, ?_⟩
      rw [finalRequests, stepped.2, List.flatMap_cons, List.append_assoc]

theorem new_balanced {size : Nat} (fits : size < 2 ^ 31) :
    Balanced serviceMap (.new size) 0 where
  valid := TcpBuffer.new_valid fits
  unread := TcpBuffer.new_readable size
  numbered := rfl
  untouched := fun _ _ => ⟨rfl, rfl⟩
  within := Nat.le_refl 0
  accounts := fun _ _ absent => by simp [Server.new] at absent

/-- A request that has been dispatched to a service has two frames when its
closure has been run. A rejected one has a single frame. -/
theorem answered_iff (balanced : Balanced serviceMap server server.requests.length)
    (settled : server.pending = []) :
    server.Answered ↔
      ∀ request ∈ server.requests, Rejects serviceMap request ∧ request.msgId ≠ [] := by
  have nothingAwaited : ∀ index, server.awaited index = 0 := by
    intro index
    rw [Server.awaited, settled]
    rfl
  constructor
  · intro answered request member
    rcases List.mem_iff_getElem?.mp member with ⟨index, present⟩
    have below : index < server.responses.length := by
      rw [balanced.numbered]
      exact (List.getElem?_eq_some_iff.mp present).1
    have accounted := balanced.accounts index request present
    rw [decide_eq_true (balanced.numbered ▸ below)] at accounted
    rcases answered index request _ present (List.getElem?_eq_getElem below) with
      ⟨message, frames, msgId, _⟩
    by_cases rejects : Rejects serviceMap request
    · have account := (accounted.rejected rejects).2
      simp only [if_true] at account
      have same : message = stamp (dispatch serviceMap request {}).1 :=
        List.singleton_inj.mp (frames.symm.trans account.1)
      have names := (dispatch_names serviceMap request {}).1
      rw [same, ← names, stamp_msgId_iff, names] at msgId
      exact ⟨rejects, msgId⟩
    · have total := accounted.dispatched rejects
      rw [frames, nothingAwaited] at total
      simp at total
  · intro rejected index request response present found
    have below := (List.getElem?_eq_some_iff.mp present).1
    have accounted := balanced.accounts index request present
    rw [decide_eq_true below] at accounted
    rcases rejected request (List.mem_of_getElem? present) with ⟨rejects, nonempty⟩
    have account := (accounted.rejected rejects).2
    simp only [if_true] at account
    rw [found, Option.some.injEq] at account
    have names := dispatch_names serviceMap request {}
    refine ⟨_, account.1, ?_, ?_, ?_, ?_⟩
    · rw [← names.1] at nonempty
      exact ((stamp_msgId_iff _).mpr nonempty).trans names.1
    · exact (stamp_methodName _).trans names.2
    · rw [account.2]
    · rw [account.2]

/-- In a run after which no closure is left, the out-buffer holds exactly one
frame for every request, with its id, its method name and its final result, if
and only if `dispatch` rejects every request and every request has an id. -/
theorem one_response_iff {size : Nat} (fits : size < 2 ^ 31)
    {events : List (ServerEvent Response)}
    (run : (serving serviceMap size).Run (.new size) events server)
    (settled : server.pending = []) :
    server.outBuffer.readable = stream (server.appended.map Prod.snd) ∧
      server.requests = events.flatMap ServerEvent.requests ∧
      (server.Answered ↔
        ∀ request ∈ events.flatMap ServerEvent.requests,
          Rejects serviceMap request ∧ request.msgId ≠ []) := by
  rcases balanced_run run (new_balanced fits) with ⟨balanced, requests⟩
  have onlyThese : server.requests = events.flatMap ServerEvent.requests := requests
  exact ⟨balanced.unread, onlyThese, onlyThese ▸ answered_iff balanced settled⟩

end Accounting

/-! ## One request -/

def makeOrder : TinyPBProtocol where
  msgId := ascii "7"
  methodName := ascii "Order.makeOrder"

theorem run_of_excute {serviceMap : ServiceMap Method Request Response} {size : Nat}
    {batch : List (TinyPBProtocol × Behaviour Response)}
    (settles : ((Server.new size).excute serviceMap batch).any (·.pending.isEmpty) = true) :
    ∃ server, (serving serviceMap size).Run (.new size) [.excute batch] server ∧
      server.pending = [] := by
  rcases (Option.any_eq_true _ _).mp settles with ⟨server, ran, settled⟩
  exact ⟨server, .cons ran (.nil server), List.isEmpty_iff.mp settled⟩

/-- No service is registered. -/
theorem one_response_rejected :
    ∃ server : Server Unit Unit Unit,
      (serving (fun _ => none) 128).Run (.new 128) [.excute [(makeOrder, .keepsDone)]]
        server ∧ server.Answered := by
  rcases @run_of_excute Unit Unit Unit (fun _ => none) 128 [(makeOrder, .keepsDone)]
    (by decide +kernel) with ⟨server, run, settled⟩
  have answered := (one_response_iff (by decide +kernel) run settled).2.2
  refine ⟨server, run, answered.mpr fun request member => ?_⟩
  rw [List.mem_singleton.mp member]
  exact ⟨by decide +kernel, by decide⟩

/-- A service that takes every method name and every payload and answers with
the bytes of its response object. -/
def echo : Service Unit Unit Bytes where
  findMethodByName := fun _ => some ()
  parseFromString := fun _ _ => some ()
  serializeToString := fun _ result => some result

/-- The service runs its closure inside `CallMethod`. Its response is sent by
the closure and by `excute`. -/
theorem one_response_doubled :
    ∃ server : Server Unit Unit Bytes,
      (serving (fun _ => some echo) 128).Run (.new 128)
        [.excute [(makeOrder, .runsDone [1])]] server ∧
      server.pending = [] ∧ ¬server.Answered := by
  rcases @run_of_excute Unit Unit Bytes (fun _ => some echo) 128 [(makeOrder, .runsDone [1])]
    (by decide +kernel) with ⟨server, run, settled⟩
  rcases balanced_run run (new_balanced (by decide +kernel)) with ⟨balanced, requests⟩
  have member : makeOrder ∈ server.requests := by
    rw [requests]
    exact List.mem_singleton_self makeOrder
  refine ⟨server, run, settled, fun answered => ?_⟩
  have rejected := ((answered_iff balanced settled).mp answered makeOrder member).1
  exact absurd rejected (by decide +kernel)

end NetRpc.TcpConnection
