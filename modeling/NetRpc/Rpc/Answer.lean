import NetRpc.Rpc.Exchange

/-! # The answer to one request

A server that gets one request appends frames for it that all fit the decoder
of the client. The first of them is the one of the closure only if the service
runs its closure inside `CallMethod`.
-/

namespace NetRpc

open RpcDispatcher TcpConnection TinyPBCoder

variable {Method Request Result : Type}

/-! ## Responses that fit the decoder of the client -/

/-- A response to `request` that is no longer than the decoder allows. -/
structure Fits (request response : TinyPBProtocol) : Prop where
  msgId : response.msgId = request.msgId
  methodName : response.methodName = request.methodName
  errInfo_nulFree : 0 ∉ response.errInfo
  errInfo_short : response.errInfo.length ≤ 24
  pbData_short : response.pbData.length < 2 ^ 30

/-- No service serializes a result to a gigabyte. -/
def ResponsesFit (serviceMap : ServiceMap Method Request Result) : Prop :=
  ∀ name service, serviceMap name = some service → ∀ method result pbData,
    service.serializeToString method result = some pbData → pbData.length < 2 ^ 30

namespace Fits

variable {request response : TinyPBProtocol}

theorem admissible (fits : Fits request response) (requestAdmissible : request.Admissible) :
    response.Admissible := by
  have idShort := requestAdmissible.msgId_short
  have nameShort := requestAdmissible.methodName_short
  have infoShort := fits.errInfo_short
  have dataShort := fits.pbData_short
  constructor
  · exact fits.msgId ▸ requestAdmissible.msgId_ne_nil
  · exact fits.msgId ▸ requestAdmissible.msgId_nulFree
  · exact fits.msgId ▸ idShort
  · exact fits.methodName ▸ requestAdmissible.methodName_nulFree
  · exact fits.methodName ▸ nameShort
  · exact fits.errInfo_nulFree
  · omega
  · rw [frameLength_eq, fits.msgId, fits.methodName]
    omega

theorem stamp (fits : Fits request response) (hasId : request.msgId ≠ []) :
    Fits request (stamp response) := by
  have same : withMsgId response = response := by
    have id : response.msgId ≠ [] := fits.msgId ▸ hasId
    simp [withMsgId, id]
  rw [TinyPBCoder.stamp, same]
  exact ⟨fits.msgId, fits.methodName, fits.errInfo_nulFree, fits.errInfo_short, fits.pbData_short⟩

theorem setTinyPBError (fits : Fits request response) (errCode : Int32) {errInfo : Bytes}
    (nulFree : 0 ∉ errInfo) (short : errInfo.length ≤ 24) :
    Fits request (setTinyPBError response errCode errInfo) :=
  ⟨fits.msgId, fits.methodName, nulFree, short, fits.pbData_short⟩

end Fits

variable {serviceMap : ServiceMap Method Request Result}

theorem dispatch_fits (serviceMap : ServiceMap Method Request Result) (request : TinyPBProtocol) :
    Fits request (dispatch serviceMap request {}).1 := by
  have named : Fits request { msgId := request.msgId, methodName := request.methodName } :=
    ⟨rfl, rfl, List.not_mem_nil, Nat.zero_le _, Nat.two_pow_pos 30⟩
  simp only [dispatch]
  split
  · exact named.setTinyPBError _ (by decide +kernel) (by decide +kernel)
  · split
    · exact named.setTinyPBError _ (by decide +kernel) (by decide +kernel)
    · split
      · exact named.setTinyPBError _ (by decide +kernel) (by decide +kernel)
      · split
        · exact named.setTinyPBError _ (by decide +kernel) (by decide +kernel)
        · exact named

/-- A call that `dispatch` makes is one of a registered service. -/
theorem dispatch_registered {request : TinyPBProtocol} {call : Call Method Request Result}
    (dispatched : (dispatch serviceMap request {}).2 = some call) :
    ∃ name, serviceMap name = some call.service := by
  simp only [dispatch] at dispatched
  split at dispatched
  · cases dispatched
  · split at dispatched
    · cases dispatched
    · split at dispatched
      · cases dispatched
      · split at dispatched
        · cases dispatched
        · cases dispatched
          exact ⟨_, ‹_›⟩

theorem Fits.complete {request response : TinyPBProtocol} {call : Call Method Request Result}
    (fits : Fits request response) (responsesFit : ResponsesFit serviceMap)
    (registered : ∃ name, serviceMap name = some call.service) (result : Result) :
    Fits request (complete call result response) := by
  rcases registered with ⟨name, registered⟩
  rw [RpcDispatcher.complete]
  split
  case h_1 => exact fits.setTinyPBError _ (by decide +kernel) (by decide +kernel)
  case h_2 pbData serialized =>
    have short := responsesFit name call.service registered _ _ pbData serialized
    exact ⟨fits.msgId, fits.methodName, List.not_mem_nil, Nat.zero_le _, short⟩

/-! ## The server -/

/-- What the first frame for `request` says. -/
def answer (serviceMap : ServiceMap Method Request Result)
    (behaviour : TinyPBProtocol → Behaviour Result) (request : TinyPBProtocol) :
    TinyPBProtocol :=
  let (response, call) := dispatch serviceMap request {}
  match call with
  | none => stamp response
  | some call =>
      match behaviour request with
      | .runsDone result => stamp (complete call result response)
      | .keepsDone => stamp response

namespace TcpConnection

/-- The server knows of no other request, and has appended `answer` first. -/
structure ServesOnly (serviceMap : ServiceMap Method Request Result)
    (behaviour : TinyPBProtocol → Behaviour Result) (request : TinyPBProtocol)
    (server : Server Method Request Result) : Prop where
  balanced : Balanced serviceMap server server.requests.length
  responses : ∀ response ∈ server.responses, Fits request response
  pending : ∀ entry ∈ server.pending, ∃ name, serviceMap name = some entry.2.service
  appended : ∀ message ∈ server.appended.map Prod.snd, Fits request message
  first : (server.requests = [] ∧ server.appended = []) ∨
    (server.requests = [request] ∧
      (server.appended.map Prod.snd).head? = some (answer serviceMap behaviour request))

variable {behaviour : TinyPBProtocol → Behaviour Result} {request : TinyPBProtocol}
  {server next : Server Method Request Result} {index : Nat}

theorem ServesOnly.new (serviceMap : ServiceMap Method Request Result)
    (behaviour : TinyPBProtocol → Behaviour Result) (request : TinyPBProtocol) :
    ServesOnly serviceMap behaviour request (.new 128) where
  balanced := new_balanced (by decide)
  responses := fun _ none => nomatch none
  pending := fun _ none => nomatch none
  appended := fun _ none => nomatch none
  first := .inl ⟨rfl, rfl⟩

/-- The response objects and the appended messages fit. -/
structure AllFit (request : TinyPBProtocol) (server : Server Method Request Result) : Prop where
  responses : ∀ response ∈ server.responses, Fits request response
  appended : ∀ message ∈ server.appended.map Prod.snd, Fits request message

theorem Encodes.allFit {response : TinyPBProtocol} (encodes : Encodes server next index response)
    (hasId : request.msgId ≠ []) (allFit : AllFit request server) : AllFit request next := by
  have stamped := (allFit.responses response (List.mem_of_getElem? encodes.found)).stamp hasId
  constructor
  · rw [encodes.responses]
    intro other member
    rcases List.mem_or_eq_of_mem_set member with before | rfl
    · exact allFit.responses other before
    · exact stamped
  · rw [encodes.appended, List.map_append, List.forall_mem_append]
    refine ⟨allFit.appended, ?_⟩
    rw [List.map_singleton, List.forall_mem_singleton]
    exact stamped

/-- A response object has been written to. -/
def Server.fill (server : Server Method Request Result) (index : Nat) (response : TinyPBProtocol) :
    Server Method Request Result :=
  { server with responses := server.responses.set index response }

/-- A closure encodes what it has made of its response object. -/
theorem runDone_encodes {call : Call Method Request Result} {result : Result}
    (ran : server.runDone index call result = some next) :
    ∃ response, server.responses[index]? = some response ∧
      Encodes (server.fill index (complete call result response)) next index
        (complete call result response) := by
  simp only [Server.runDone, Option.bind_eq_bind, Option.bind_eq_some_iff] at ran
  rcases ran with ⟨response, found, encoded⟩
  rcases encodes_of_encode encoded with ⟨completed, encodes⟩
  have below := (List.getElem?_eq_some_iff.mp found).1
  have same := encodes.found
  rw [List.getElem?_set_self below] at same
  cases same
  exact ⟨response, found, encodes⟩

theorem AllFit.runDone {call : Call Method Request Result} {result : Result}
    (allFit : AllFit request server) (hasId : request.msgId ≠ [])
    (responsesFit : ResponsesFit serviceMap)
    (registered : ∃ name, serviceMap name = some call.service)
    (ran : server.runDone index call result = some next) : AllFit request next := by
  rcases runDone_encodes ran with ⟨response, found, encodes⟩
  have fits := allFit.responses response (List.mem_of_getElem? found)
  apply encodes.allFit hasId
  refine ⟨?_, allFit.appended⟩
  intro other member
  rcases List.mem_or_eq_of_mem_set member with before | rfl
  · exact allFit.responses other before
  · exact fits.complete responsesFit registered result

/-- What has been appended stays in front. -/
theorem ServesOnly.first_append (serves : ServesOnly serviceMap behaviour request server)
    (requests : next.requests = server.requests) (some : server.requests ≠ [])
    {more : List (Nat × TinyPBProtocol)} (appended : next.appended = server.appended ++ more) :
    next.requests = [request] ∧
      (next.appended.map Prod.snd).head? = .some (answer serviceMap behaviour request) := by
  rcases serves.first with ⟨none, _⟩ | ⟨one, head⟩
  · exact absurd none some
  · refine ⟨requests.trans one, ?_⟩
    rw [appended, List.map_append, List.head?_append, head, Option.some_or]

theorem ServesOnly.finish {result : Result}
    (serves : ServesOnly serviceMap behaviour request server) (hasId : request.msgId ≠ [])
    (responsesFit : ResponsesFit serviceMap) (ran : server.finish index result = some next) :
    ServesOnly serviceMap behaviour request next ∧ next.requests = server.requests ∧
      next.appended ≠ [] := by
  rcases balanced_finish serves.balanced ran with ⟨balanced, requests⟩
  simp only [Server.finish, Option.bind_eq_bind, Option.bind_eq_some_iff] at ran
  rcases ran with ⟨⟨number, call⟩, found, completed⟩
  have registered := serves.pending _ (List.mem_of_find?_eq_some found)
  have released : AllFit request (server.release index) := ⟨serves.responses, serves.appended⟩
  have allFit := released.runDone hasId responsesFit registered completed
  rcases runDone_encodes completed with ⟨response, present, encodes⟩
  have some : server.requests ≠ [] := by
    intro none
    have below := (List.getElem?_eq_some_iff.mp present).1
    have numbered := serves.balanced.numbered
    rw [none] at numbered
    rw [Server.release, numbered] at below
    exact Nat.not_lt_zero index below
  have pending : ∀ entry ∈ next.pending, ∃ name, serviceMap name = .some entry.2.service := by
    intro entry member
    rw [encodes.pending] at member
    exact serves.pending entry ((List.eraseP_sublist).subset member)
  refine ⟨⟨balanced, allFit.responses, pending, allFit.appended,
    .inr (serves.first_append requests some encodes.appended)⟩, requests, ?_⟩
  rw [encodes.appended]
  exact List.append_ne_nil_of_right_ne_nil _ (List.cons_ne_nil _ _)

theorem ServesOnly.new_of_none (serves : ServesOnly serviceMap behaviour request server)
    (none : server.requests = []) : server.responses = [] ∧ server.appended = [] := by
  constructor
  · have numbered := serves.balanced.numbered
    rw [none, List.length_nil, List.length_eq_zero_iff] at numbered
    exact numbered
  · rcases serves.first with ⟨_, empty⟩ | ⟨one, _⟩
    · exact empty
    · rw [none] at one
      cases one

/-- What dispatching its one request does to a server that has had none. -/
structure HandledFirst (serviceMap : ServiceMap Method Request Result)
    (behaviour : TinyPBProtocol → Behaviour Result) (request : TinyPBProtocol)
    (handled : Server Method Request Result) : Prop where
  allFit : AllFit request handled
  pending : ∀ entry ∈ handled.pending, ∃ name, serviceMap name = some entry.2.service
  first : ∀ {next response}, Encodes handled next 0 response →
    (next.appended.map Prod.snd).head? = some (answer serviceMap behaviour request)

/-- The request has arrived, and nothing has been appended. -/
structure ArrivedFirst (serviceMap : ServiceMap Method Request Result) (request : TinyPBProtocol)
    (arrived : Server Method Request Result) : Prop where
  responses : arrived.responses = [(dispatch serviceMap request {}).1]
  appended : arrived.appended = []
  pending : ∀ entry ∈ arrived.pending, ∃ name, serviceMap name = some entry.2.service

theorem ServesOnly.arrive (serves : ServesOnly serviceMap behaviour request server)
    (none : server.requests = []) :
    ArrivedFirst serviceMap request
      (server.arrive request (dispatch serviceMap request {}).1) := by
  rcases serves.new_of_none none with ⟨noResponses, noAppended⟩
  refine ⟨?_, noAppended, serves.pending⟩
  simp only [Server.arrive, noResponses, List.nil_append]

namespace ArrivedFirst

variable {arrived : Server Method Request Result}

theorem allFit (first : ArrivedFirst serviceMap request arrived) : AllFit request arrived := by
  constructor
  · rw [first.responses, List.forall_mem_singleton]
    exact dispatch_fits serviceMap request
  · rw [first.appended]
    intro message none
    cases none

theorem await (first : ArrivedFirst serviceMap request arrived) (index : Nat)
    {call : Call Method Request Result}
    (registered : ∃ name, serviceMap name = some call.service) :
    ArrivedFirst serviceMap request (arrived.await index call) := by
  refine ⟨first.responses, first.appended, ?_⟩
  rw [Server.await, List.forall_mem_append, List.forall_mem_singleton]
  exact ⟨first.pending, registered⟩

/-- `replay_messages` alone gives the request a frame. -/
theorem encodes (first : ArrivedFirst serviceMap request arrived) {response : TinyPBProtocol}
    (encodes : Encodes arrived next 0 response) :
    next.appended.map Prod.snd = [stamp (dispatch serviceMap request {}).1] := by
  have found := encodes.found
  rw [first.responses] at found
  cases found
  rw [encodes.appended, first.appended]
  rfl

/-- The closure is run before `replay_messages` are encoded. -/
theorem runDone (first : ArrivedFirst serviceMap request arrived)
    {call : Call Method Request Result} {result : Result}
    (ran : arrived.runDone 0 call result = some next) :
    next.pending = arrived.pending ∧ next.appended.map Prod.snd =
      [stamp (complete call result (dispatch serviceMap request {}).1)] := by
  rcases runDone_encodes ran with ⟨response, found, encodes⟩
  rw [first.responses] at found
  cases found
  refine ⟨encodes.pending, ?_⟩
  rw [encodes.appended, Server.fill, first.appended]
  rfl

end ArrivedFirst

theorem ServesOnly.handle {handled : Server Method Request Result}
    (serves : ServesOnly serviceMap behaviour request server) (none : server.requests = [])
    (hasId : request.msgId ≠ []) (responsesFit : ResponsesFit serviceMap)
    (ran : server.handle serviceMap (request, behaviour request) = some handled) :
    HandledFirst serviceMap behaviour request handled := by
  have arrived := serves.arrive none
  have noResponses := (serves.new_of_none none).1
  cases dispatched : (dispatch serviceMap request {}).2 with
  | none =>
      simp only [Server.handle, dispatched, Option.some.injEq] at ran
      subst ran
      refine ⟨arrived.allFit, arrived.pending, ?_⟩
      intro next response encodes
      rw [arrived.encodes encodes]
      simp only [answer, dispatched, List.head?_cons]
  | some call =>
      have registered := dispatch_registered dispatched
      cases behaves : behaviour request with
      | runsDone result =>
          simp only [Server.handle, noResponses, List.length_nil, dispatched, behaves] at ran
          rcases arrived.runDone ran with ⟨pending, appended⟩
          refine ⟨arrived.allFit.runDone hasId responsesFit registered ran, ?_, ?_⟩
          · rw [pending]
            exact arrived.pending
          · intro next other later
            rw [later.appended, List.map_append, appended]
            simp only [answer, dispatched, behaves, List.cons_append, List.head?_cons]
      | keepsDone =>
          simp only [Server.handle, noResponses, List.length_nil, dispatched, behaves,
            Option.some.injEq] at ran
          subst ran
          have awaited := arrived.await 0 registered
          refine ⟨awaited.allFit, awaited.pending, ?_⟩
          intro next response encodes
          rw [awaited.encodes encodes]
          simp only [answer, dispatched, behaves, List.head?_cons]

theorem ServesOnly.excute (serves : ServesOnly serviceMap behaviour request server)
    (none : server.requests = []) (hasId : request.msgId ≠ [])
    (responsesFit : ResponsesFit serviceMap)
    (ran : server.excute serviceMap [(request, behaviour request)] = some next) :
    ServesOnly serviceMap behaviour request next ∧ next.requests = [request] := by
  rcases balanced_excute serves.balanced ran with ⟨balanced, requests⟩
  have numbered := serves.balanced.numbered
  rw [none, List.nil_append] at requests
  rw [none] at numbered
  simp only [Server.excute, List.foldlM_cons, List.foldlM_nil, Option.bind_eq_bind,
    Option.bind_eq_some_iff, numbered, List.length_nil, List.length_singleton, List.range'_one,
    Option.pure_def, Option.some.injEq, exists_eq_right] at ran
  rcases ran with ⟨handled, dispatched, replayed⟩
  rcases encodes_of_encode replayed with ⟨response, encodes⟩
  rcases serves.handle none hasId responsesFit dispatched with ⟨allFit, pending, first⟩
  have nextFit := encodes.allFit hasId allFit
  refine ⟨⟨balanced, nextFit.responses, ?_, nextFit.appended, .inr ⟨requests, first encodes⟩⟩,
    requests⟩
  rw [encodes.pending]
  exact pending

theorem excute_nil : server.excute serviceMap [] = some server :=
  rfl

/-- The messages are none, or the request for the first time. -/
theorem ServesOnly.excuteAll {messages : List TinyPBProtocol}
    (serves : ServesOnly serviceMap behaviour request server) (hasId : request.msgId ≠ [])
    (responsesFit : ResponsesFit serviceMap)
    (within : server.requests ++ messages <+: [request])
    (ran : server.excute serviceMap (messages.map fun message => (message, behaviour message)) =
      some next) :
    ServesOnly serviceMap behaviour request next ∧
      next.requests = server.requests ++ messages ∧
      (next.appended = [] → server.appended = []) := by
  cases messages with
  | nil =>
      rw [List.map_nil, excute_nil, Option.some.injEq] at ran
      subst ran
      exact ⟨serves, (List.append_nil _).symm, id⟩
  | cons message messages =>
      have length := within.length_le
      rw [List.length_append, List.length_cons, List.length_singleton] at length
      have none : server.requests = [] := List.length_eq_zero_iff.mp (by omega)
      have last : messages = [] := List.length_eq_zero_iff.mp (by omega)
      subst last
      rw [none, List.nil_append] at within
      have same : message = request := (List.cons_prefix_cons.mp within).1
      subst same
      rcases serves.excute none hasId responsesFit ran with ⟨nextServes, requests⟩
      refine ⟨nextServes, ?_, fun _ => (serves.new_of_none none).2⟩
      rw [requests, none, List.nil_append]

end TcpConnection

end NetRpc
