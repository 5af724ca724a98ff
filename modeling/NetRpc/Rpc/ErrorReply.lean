import NetRpc.Coder.Emitted
import NetRpc.Coder.RoundTrip
import NetRpc.Rpc.Channel
import NetRpc.Rpc.Responses
import NetRpc.Tcp.ReadDones

/-! # Errors of dispatch

A request that cannot be dispatched is answered with an error code and a text.
They travel in their own fields of the response frame to the callback that the
client has registered under the id of the request.
-/

namespace NetRpc

open RpcDispatcher TinyPBCoder TcpConnection

variable {Method Request Result Response : Type}

namespace RpcDispatcher

/-- Why a request cannot be dispatched, with the error that says so. -/
inductive Undispatchable (serviceMap : ServiceMap Method Request Result)
    (request : TinyPBProtocol) : Int32 → Bytes → Prop
  | noName :
      parseServiceFullName request.methodName = none →
      Undispatchable serviceMap request errorParseServiceName
        (ascii "parse service name error")
  | noService {serviceName methodName : Bytes} :
      parseServiceFullName request.methodName = some (serviceName, methodName) →
      serviceMap serviceName = none →
      Undispatchable serviceMap request errorServiceNotFound (ascii "service not found")
  | noMethod {serviceName methodName : Bytes} {service : Service Method Request Result} :
      parseServiceFullName request.methodName = some (serviceName, methodName) →
      serviceMap serviceName = some service →
      service.findMethodByName methodName = none →
      Undispatchable serviceMap request errorServiceNotFound (ascii "method not found")
  | noRequest {serviceName methodName : Bytes} {service : Service Method Request Result}
      {method : Method} :
      parseServiceFullName request.methodName = some (serviceName, methodName) →
      serviceMap serviceName = some service →
      service.findMethodByName methodName = some method →
      service.parseFromString method request.pbData = none →
      Undispatchable serviceMap request errorFailedDeserialize (ascii "deserilize error")

variable {serviceMap : ServiceMap Method Request Result} {request : TinyPBProtocol}
variable {errCode : Int32} {errInfo : Bytes}

theorem Undispatchable.dispatch_eq
    (undispatchable : Undispatchable serviceMap request errCode errInfo) :
    dispatch serviceMap request {} =
      (setTinyPBError { msgId := request.msgId, methodName := request.methodName }
        errCode errInfo, none) := by
  cases undispatchable with
  | noName split => simp only [dispatch, split]
  | noService split noService => simp only [dispatch, split, noService]
  | noMethod split service noMethod => simp only [dispatch, split, service, noMethod]
  | noRequest split service method noRequest =>
      simp only [dispatch, split, service, method, noRequest]

/-- The codes are not zero and the texts fit the arrays of the decoder. -/
theorem Undispatchable.error_fits
    (undispatchable : Undispatchable serviceMap request errCode errInfo) :
    errCode ≠ 0 ∧ FromArray 512 errInfo ∧ errInfo.length ≤ 24 := by
  cases undispatchable <;>
    exact ⟨by decide, ⟨by decide +kernel, by decide +kernel⟩, by decide +kernel⟩

/-- The response to an emitted request fits the decoder of the client. -/
theorem Undispatchable.admissible
    (undispatchable : Undispatchable serviceMap request errCode errInfo)
    (emitted : Emitted request) (hasId : request.msgId ≠ []) :
    (dispatch serviceMap request {}).1.Admissible := by
  have fits := undispatchable.error_fits
  have short := emitted.msgId.2
  have names := emitted.methodName.2
  rw [undispatchable.dispatch_eq]
  constructor
  · exact hasId
  · exact emitted.msgId.1
  · exact short
  · exact emitted.methodName.1
  · exact names
  · exact fits.2.1.1
  · exact fits.2.1.2
  · rw [frameLength_eq]
    simp only [setTinyPBError, List.length_nil]
    omega

end RpcDispatcher

/-! ## The server -/

/-- `excute` gives an emitted request that cannot be dispatched a single frame. -/
theorem framesOf_undispatchable {serviceMap : ServiceMap Method Request Result}
    {server next : Server Method Request Result}
    {batch : List (TinyPBProtocol × Behaviour Result)} {position : Nat}
    {request : TinyPBProtocol} {behaviour : Behaviour Result}
    {errCode : Int32} {errInfo : Bytes}
    (balanced : Balanced serviceMap server server.requests.length)
    (ran : server.excute serviceMap batch = some next)
    (present : batch[position]? = some (request, behaviour))
    (undispatchable : Undispatchable serviceMap request errCode errInfo) :
    next.framesOf (server.requests.length + position) =
        [stamp (dispatch serviceMap request {}).1] ∧
      next.awaited (server.requests.length + position) = 0 := by
  rcases balanced_excute balanced ran with ⟨nextBalanced, requests⟩
  have rejects : Rejects serviceMap request := by
    rw [Rejects, undispatchable.dispatch_eq]
  have isRequest : next.requests[server.requests.length + position]? = some request := by
    rw [requests, List.getElem?_append_right (Nat.le_add_right _ _), Nat.add_sub_cancel_left,
      List.getElem?_map, present, Option.map_some]
  have below := (List.getElem?_eq_some_iff.mp isRequest).1
  have accounted := (nextBalanced.accounts _ request isRequest).rejected rejects
  rw [decide_eq_true below, if_pos rfl] at accounted
  exact ⟨accounted.2.1, accounted.1⟩

/-! ## The client -/

section Client

open RpcChannel

variable {closure : Option (Closure Response)} {parseFromString : Bytes → Response × Bool}

/-- A response with an error and no payload. -/
theorem onResponse_error {call : ActiveCall Response} {message : TinyPBProtocol}
    (acceptsEmpty : (parseFromString []).2 = true) (noPayload : message.pbData = [])
    (isError : message.errCode ≠ 0) :
    onResponse closure parseFromString call message =
      callBack closure
        ({ call with response := (parseFromString []).1 }.setError
          message.errCode message.errInfo) := by
  simp [onResponse, noPayload, acceptsEmpty, isError]

/-- How a call ends that an error was reported to. -/
structure EndsWithError (closure : Option (Closure Response)) (call final : ActiveCall Response)
    (errCode : Int32) (errInfo : Bytes) : Prop where
  /-- The closure is run and finds the error in the controller. -/
  found : ∀ run, closure = some run → ∃ controller : RpcController,
    final.completions = call.completions ++ [controller] ∧
      controller.errorCode = errCode ∧ controller.errorInfo = errInfo
  /-- The error stays in the controller, unless the closure itself changes it. -/
  stays : (∀ run, closure = some run → ∀ controller response,
      (run controller response).1.errorCode = controller.errorCode ∧
        (run controller response).1.errorInfo = controller.errorInfo) →
    final.controller.errorCode = errCode ∧ final.controller.errorInfo = errInfo

theorem callBack_error {call : ActiveCall Response} (response : Response) (errCode : Int32)
    (errInfo : Bytes) (unfinished : call.controller.isFinished = false) :
    EndsWithError closure call
      (callBack closure ({ call with response }.setError errCode errInfo)) errCode errInfo := by
  cases closure with
  | none =>
      have same : callBack none ({ call with response }.setError errCode errInfo) =
          { call with response }.setError errCode errInfo := by
        rw [callBack]
        split <;> rfl
      rw [same]
      refine ⟨fun run absent => ?_, fun _ => ⟨rfl, rfl⟩⟩
      cases absent
  | some run =>
      have ran := callBack_unfinished run ({ call with response }.setError errCode errInfo)
        unfinished
      constructor
      · intro _ _
        exact ⟨_, ran.2, rfl, rfl⟩
      · intro leaves
        have keeps := leaves run rfl
          (({ call with response }.setError errCode errInfo).controller) response
        have stillUnfinished :
            ¬({ call with response }.setError errCode errInfo).controller.isFinished = true := by
          simpa [ActiveCall.setError, RpcController.setError] using unfinished
        rw [callBack, if_neg stillUnfinished]
        exact keeps

end Client

section Whole

open RpcChannel

variable {serviceMap : ServiceMap Method Request Result}

/-- An emitted request that cannot be dispatched calls no service and gets one
frame. The client that receives the frame decodes one message from it, finds
the callback of the call and reports the error that `dispatch` has set. -/
theorem dispatch_error_reaches_caller {size : Nat} (fits : size < 2 ^ 31)
    {events : List (ServerEvent Result)} {server next : Server Method Request Result}
    (run : (serving serviceMap size).Run (.new size) events server)
    {inBuffer rest : TcpBuffer} {passes : Nat}
    {batch : List (TinyPBProtocol × Behaviour Result)}
    (decoded : decode passes [] inBuffer = some (.ok (batch.map Prod.fst, rest)))
    (ran : server.excute serviceMap batch = some next)
    {position : Nat} {request : TinyPBProtocol} {behaviour : Behaviour Result}
    (present : batch[position]? = some (request, behaviour)) (hasId : request.msgId ≠ [])
    {errCode : Int32} {errInfo : Bytes}
    (undispatchable : Undispatchable serviceMap request errCode errInfo) :
    ((dispatch serviceMap request {}).2 = none ∧
      (dispatch serviceMap request {}).1.errCode = errCode ∧
      (dispatch serviceMap request {}).1.errInfo = errInfo) ∧
    ∃ message,
      (next.framesOf (server.requests.length + position) = [message] ∧
        next.outBuffer.readable = stream (next.appended.map Prod.snd)) ∧
      ∀ (reader : Reader (ActiveCall Response)) (closure : Option (Closure Response))
        (parseFromString : Bytes → Response × Bool) (call : ActiveCall Response),
        reader.inBuffer.Spare → reader.inBuffer.readable = frame message →
        reader.readDones request.msgId =
          some (fun message call => onResponse closure parseFromString call message) →
        call.controller.isFinished = false → (parseFromString []).2 = true →
        ∃ enough drained final, drained.readAble = 0 ∧
          EndsWithError closure call final errCode errInfo ∧
          ∀ fuel, enough ≤ fuel →
            decode fuel [] reader.inBuffer = some (.ok ([message], drained)) ∧
            reader.excute fuel call =
              some (.ok
                ({ inBuffer := drained
                   readDones := Function.update reader.readDones request.msgId none },
                  final)) := by
  rcases balanced_run run (new_balanced fits) with ⟨balanced, _⟩
  have framed := framesOf_undispatchable balanced ran present undispatchable
  have emitted := decode_emitted decoded request
    (List.mem_map_of_mem (List.mem_of_getElem? present))
  have admissible := undispatchable.admissible emitted hasId
  refine ⟨by rw [undispatchable.dispatch_eq]; exact ⟨rfl, rfl, rfl⟩,
    stamp (dispatch serviceMap request {}).1,
    ⟨framed.1, (balanced_excute balanced ran).1.unread⟩, ?_⟩
  intro reader closure parseFromString call spare received registered unfinished acceptsEmpty
  have stamped : stamp (dispatch serviceMap request {}).1 =
      (dispatch serviceMap request {}).1.measured := by
    rw [stamp, admissible.withMsgId_eq]
  have readable : reader.inBuffer.readable = stream [(dispatch serviceMap request {}).1] := by
    rw [received, frame_stamp, stream_cons, stream_nil, List.append_nil]
  have alone : ∀ message ∈ [(dispatch serviceMap request {}).1], message.Admissible := by
    intro message member
    rw [List.mem_singleton.mp member]
    exact admissible
  rcases returns_stream spare alone readable with ⟨drained, returns⟩
  rcases returns.run_eq with ⟨enough, runs⟩
  have response : (stamp (dispatch serviceMap request {}).1).msgId = request.msgId ∧
      (stamp (dispatch serviceMap request {}).1).pbData = [] ∧
      (stamp (dispatch serviceMap request {}).1).errCode = errCode ∧
      (stamp (dispatch serviceMap request {}).1).errInfo = errInfo := by
    rw [stamped, undispatchable.dispatch_eq]
    exact ⟨rfl, rfl, rfl, rfl⟩
  have reported := @onResponse_error _ closure parseFromString call _ acceptsEmpty response.2.1
    (by rw [response.2.2.1]; exact undispatchable.error_fits.1)
  rw [response.2.2.1, response.2.2.2] at reported
  refine ⟨enough, _, _, drained,
    callBack_error (parseFromString []).1 errCode errInfo unfinished, fun fuel passed => ?_⟩
  have single := runs fuel passed []
  rw [List.nil_append, List.map_singleton, ← stamped] at single
  rw [← response.1] at registered ⊢
  rw [← reported]
  exact ⟨single, Reader.excute_single single registered⟩

end Whole

/-! ## One request -/

/-- The response to `makeOrder` where no service is registered. -/
def makeOrderError : TinyPBProtocol where
  msgId := ascii "7"
  methodName := ascii "Order.makeOrder"
  errCode := errorServiceNotFound
  errInfo := ascii "service not found"

/-- What `CallMethod` passes to `readMessage`, with a closure that does nothing
and a response that parses. -/
def makeOrderDone (message : TinyPBProtocol) (call : RpcChannel.ActiveCall Unit) :
    RpcChannel.ActiveCall Unit :=
  RpcChannel.onResponse (some fun controller response => (controller, response))
    (fun _ => ((), true)) call message

/-- A client that waits for the response to `makeOrder` and has received it. -/
def makeOrderReader : Reader (RpcChannel.ActiveCall Unit) :=
  ({ inBuffer := (TcpBuffer.new 128).receive (frame makeOrderError)
     readDones := fun _ => none } : Reader (RpcChannel.ActiveCall Unit)).pushReadMessage
    (ascii "7") makeOrderDone

theorem makeOrder_decoded : ∃ passes rest,
    decode passes [] ((TcpBuffer.new 128).receive (frame makeOrder)) =
      some (.ok ([makeOrder.measured], rest)) := by
  have spare := @TcpBuffer.new_spare 128 (by omega) (by omega)
  have fits : (frame makeOrder).length < (TcpBuffer.new 128).writeAble := by decide +kernel
  have readable := TcpBuffer.receive_readable spare fits
  rw [TcpBuffer.new_readable, List.nil_append] at readable
  have admissible : ∀ message ∈ [makeOrder], message.Admissible := by
    intro message member
    rw [List.mem_singleton.mp member]
    constructor <;> decide +kernel
  rcases returns_stream (TcpBuffer.receive_spare spare fits) admissible
    (readable.trans (List.append_nil _).symm) with ⟨_, returns⟩
  rcases returns.run_eq with ⟨passes, runs⟩
  exact ⟨passes, _, runs passes (Nat.le_refl _) []⟩

theorem dispatch_error_reaches_makeOrder :
    ∃ fuel reader final,
      makeOrderReader.excute fuel (.start {} ()) = some (.ok (reader, final)) ∧
        EndsWithError (some fun controller response => (controller, response)) (.start {} ())
          final errorServiceNotFound (ascii "service not found") := by
  rcases makeOrder_decoded with ⟨passes, rest, decoded⟩
  have accepted : ((Server.new 128 : Server Unit Unit Unit).excute (fun _ => none)
      [(makeOrder.measured, .keepsDone)]).isSome = true := by decide +kernel
  rcases Option.isSome_iff_exists.mp accepted with ⟨next, ran⟩
  have undispatchable : @Undispatchable Unit Unit Unit (fun _ => none) makeOrder.measured
      errorServiceNotFound (ascii "service not found") :=
    @Undispatchable.noService _ _ _ _ _ (ascii "Order") (ascii "makeOrder")
      (by decide +kernel) rfl
  rcases (@dispatch_error_reaches_caller _ _ _ Unit _ 128 (by omega) [] _ next (.nil _) _ rest
    passes [(makeOrder.measured, .keepsDone)] decoded ran 0 _ _ rfl (by decide +kernel)
    _ _ undispatchable).2 with ⟨message, ⟨framed, _⟩, reaches⟩
  have present : [(makeOrder.measured, (.keepsDone : Behaviour Unit))][0]? =
      some (makeOrder.measured, .keepsDone) := rfl
  rw [(framesOf_undispatchable (new_balanced (by omega)) ran present undispatchable).1] at framed
  have encoded : frame message = frame makeOrderError := by
    rw [← List.singleton_inj.mp framed, frame_stamp, undispatchable.dispatch_eq]
    rfl
  have spare := @TcpBuffer.new_spare 128 (by omega) (by omega)
  have fits : (frame makeOrderError).length < (TcpBuffer.new 128).writeAble := by decide +kernel
  have readable := TcpBuffer.receive_readable spare fits
  rw [TcpBuffer.new_readable, List.nil_append] at readable
  have registered := @Reader.pushReadMessage_absent _
    { inBuffer := (TcpBuffer.new 128).receive (frame makeOrderError), readDones := fun _ => none }
    (ascii "7") rfl makeOrderDone
  have inBuffer : makeOrderReader.inBuffer =
      (TcpBuffer.new 128).receive (frame makeOrderError) := by
    rw [makeOrderReader, registered.2]
  have received : makeOrderReader.inBuffer.Spare := by
    rw [inBuffer]
    exact TcpBuffer.receive_spare spare fits
  have whole : makeOrderReader.inBuffer.readable = frame message := by
    rw [inBuffer, readable, encoded]
  rcases reaches makeOrderReader _ _ (.start {} ()) received whole registered.1 rfl rfl with
    ⟨enough, drained, final, _, ends, runs⟩
  exact ⟨enough, _, final, (runs enough (Nat.le_refl _)).2, ends⟩

end NetRpc
