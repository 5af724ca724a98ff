import NetRpc.Coder.Protocol
import NetRpc.Common.ErrorCode

/-! # RpcDispatcher

Protobuf's descriptors and messages are parameters: a service is what its
descriptor finds, what its request prototypes parse and what its response
objects serialize to.
-/

namespace NetRpc

structure Service (Method Request Response : Type) where
  findMethodByName : Bytes → Option Method
  parseFromString : Method → Bytes → Option Request
  serializeToString : Method → Response → Option Bytes

/-- A request that has passed all checks of `dispatch` and is handed to its
service. -/
structure Call (Method Request Response : Type) where
  service : Service Method Request Response
  method : Method
  request : Request

namespace RpcDispatcher

variable {Method Request Response : Type}

/-- The services that have been registered, under their names. -/
abbrev ServiceMap (Method Request Response : Type) :=
  Bytes → Option (Service Method Request Response)

/-- Split a full name at its first dot. -/
def parseServiceFullName (fullName : Bytes) : Option (Bytes × Bytes) :=
  if fullName.isEmpty then
    none
  else do
    let i ← fullName.findIdx? (· == 0x2e)
    some (fullName.take i, fullName.drop (i + 1))

def setTinyPBError (message : TinyPBProtocol) (errCode : Int32) (errInfo : Bytes) :
    TinyPBProtocol :=
  { message with
    errCode
    errInfo
    errInfoLen := .ofNat errInfo.length }

/-- Fill in what is known of the response. When the request passes all checks,
the call is returned that `CallMethod` is to be made with. -/
def dispatch (serviceMap : ServiceMap Method Request Response)
    (request response : TinyPBProtocol) :
    TinyPBProtocol × Option (Call Method Request Response) :=
  let response := { response with
    msgId := request.msgId
    methodName := request.methodName }
  match parseServiceFullName request.methodName with
  | none =>
      (setTinyPBError response errorParseServiceName (ascii "parse service name error"), none)
  | some (serviceName, methodName) =>
      match serviceMap serviceName with
      | none =>
          (setTinyPBError response errorServiceNotFound (ascii "service not found"), none)
      | some service =>
          match service.findMethodByName methodName with
          | none =>
              (setTinyPBError response errorServiceNotFound (ascii "method not found"), none)
          | some method =>
              match service.parseFromString method request.pbData with
              | none =>
                  (setTinyPBError response errorFailedDeserialize
                    (ascii "deserilize error"), none)
              | some parsed => (response, some { service, method, request := parsed })

/-- What the closure of a call does to the response before it replies. A failed
serialization leaves `pb_data` as empty as it is in a new response. -/
def complete (call : Call Method Request Response) (result : Response)
    (response : TinyPBProtocol) : TinyPBProtocol :=
  match call.service.serializeToString call.method result with
  | none => setTinyPBError response errorFailedSerialize (ascii "serilize error")
  | some pbData => { response with pbData, errCode := 0, errInfo := [] }

/-- The request is answered by `dispatch` itself. -/
def Rejects (serviceMap : ServiceMap Method Request Response)
    (request : TinyPBProtocol) : Prop :=
  (dispatch serviceMap request {}).2 = none

instance (serviceMap : ServiceMap Method Request Response) (request : TinyPBProtocol) :
    Decidable (Rejects serviceMap request) :=
  decidable_of_iff ((dispatch serviceMap request {}).2.isNone = true) Option.isNone_iff_eq_none

variable (serviceMap : ServiceMap Method Request Response) (request : TinyPBProtocol)

theorem dispatch_names (response : TinyPBProtocol) :
    (dispatch serviceMap request response).1.msgId = request.msgId ∧
      (dispatch serviceMap request response).1.methodName = request.methodName := by
  simp only [dispatch]
  split
  · exact ⟨rfl, rfl⟩
  · split
    · exact ⟨rfl, rfl⟩
    · split
      · exact ⟨rfl, rfl⟩
      · split <;> exact ⟨rfl, rfl⟩

end RpcDispatcher

end NetRpc
