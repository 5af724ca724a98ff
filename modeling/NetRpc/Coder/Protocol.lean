import NetRpc.Tcp.Buffer

/-! # TinyPB messages and their encoding -/

namespace NetRpc

structure TinyPBProtocol where
  msgId : Bytes := []
  pkLen : Int32 := 0
  msgIdLen : Int32 := 0
  methodNameLen : Int32 := 0
  methodName : Bytes := []
  errCode : Int32 := 0
  errInfoLen : Int32 := 0
  errInfo : Bytes := []
  pbData : Bytes := []
  parseSuccess : Bool := false
deriving DecidableEq

namespace TinyPBProtocol

def pbStart : Byte := 0x02

def pbEnd : Byte := 0x03

/-- The number of bytes of the encoded message. -/
def frameLength (message : TinyPBProtocol) : Nat :=
  2 + 24 + message.msgId.length + message.methodName.length +
    message.errInfo.length + message.pbData.length

/-- The message with its length fields filled in. -/
def measured (message : TinyPBProtocol) : TinyPBProtocol :=
  { message with
    pkLen := .ofNat message.frameLength
    msgIdLen := .ofNat message.msgId.length
    methodNameLen := .ofNat message.methodName.length
    errInfoLen := .ofNat message.errInfo.length
    parseSuccess := true }

end TinyPBProtocol

namespace TinyPBCoder

open TinyPBProtocol

/-- A message without an id is given the fixed one before anything is written. -/
def withMsgId (message : TinyPBProtocol) : TinyPBProtocol :=
  if message.msgId.isEmpty then
    { message with msgId := ascii "123456789" }
  else
    message

/-- The message object as `encodeTinyPB` leaves it. -/
def stamp (message : TinyPBProtocol) : TinyPBProtocol :=
  (withMsgId message).measured

/-- The buffer that `encodeTinyPB` returns. -/
def frame (message : TinyPBProtocol) : Bytes :=
  let message := withMsgId message
  [pbStart] ++
    htonl (.ofNat message.frameLength) ++
    htonl (.ofNat message.msgId.length) ++ message.msgId ++
    htonl (.ofNat message.methodName.length) ++ message.methodName ++
    htonl message.errCode ++
    htonl (.ofNat message.errInfo.length) ++ message.errInfo ++
    message.pbData ++
    htonl 1 ++
    [pbEnd]

def encodeTinyPB (message : TinyPBProtocol) : TinyPBProtocol × Bytes :=
  (stamp message, frame message)

/-- Encode the messages in order into the buffer. The messages come back as
the encoder leaves them, since they are shared with the caller. -/
def encode : List TinyPBProtocol → TcpBuffer → Option (List TinyPBProtocol × TcpBuffer)
  | [], outBuffer => some ([], outBuffer)
  | message :: messages, outBuffer => do
      let (stamped, bytes) := encodeTinyPB message
      let outBuffer ← outBuffer.writeToBuffer bytes
      let (later, outBuffer) ← encode messages outBuffer
      some (stamped :: later, outBuffer)

/-- The byte stream that carries the messages in order. -/
def stream (messages : List TinyPBProtocol) : Bytes :=
  messages.flatMap frame

@[simp] theorem stream_nil : stream [] = [] := rfl

@[simp] theorem stream_cons (message : TinyPBProtocol) (messages : List TinyPBProtocol) :
    stream (message :: messages) = frame message ++ stream messages := rfl

theorem stream_append (left right : List TinyPBProtocol) :
    stream (left ++ right) = stream left ++ stream right :=
  List.flatMap_append

theorem frameLength_eq (message : TinyPBProtocol) :
    message.frameLength = 26 + (message.msgId.length + message.methodName.length +
      message.errInfo.length + message.pbData.length) := by
  simp only [frameLength, Nat.reduceAdd, Nat.add_assoc]

theorem frame_length (message : TinyPBProtocol) :
    (frame message).length = (withMsgId message).frameLength := by
  simp [frame, frameLength]
  omega

theorem frame_length_pos (message : TinyPBProtocol) : 0 < (frame message).length := by
  rw [frame_length, frameLength_eq]
  omega

/-- The encoder keeps every id but the empty one. -/
theorem stamp_msgId_iff (message : TinyPBProtocol) :
    (stamp message).msgId = message.msgId ↔ message.msgId ≠ [] := by
  by_cases empty : message.msgId = []
  · simp [stamp, withMsgId, measured, empty, ascii]
  · simp [stamp, withMsgId, measured, empty]

theorem stamp_methodName (message : TinyPBProtocol) :
    (stamp message).methodName = message.methodName := by
  by_cases empty : message.msgId = [] <;> simp [stamp, withMsgId, measured, empty]

end TinyPBCoder

/-- A message whose fields fit the decoder's local arrays and whose packet
length is an `int`. -/
structure TinyPBProtocol.Admissible (message : TinyPBProtocol) : Prop where
  msgId_ne_nil : message.msgId ≠ []
  msgId_nulFree : 0 ∉ message.msgId
  msgId_short : message.msgId.length < 100
  methodName_nulFree : 0 ∉ message.methodName
  methodName_short : message.methodName.length < 512
  errInfo_nulFree : 0 ∉ message.errInfo
  errInfo_short : message.errInfo.length < 512
  frameLength_fits : message.frameLength < 2 ^ 31

namespace TinyPBProtocol.Admissible

variable {message : TinyPBProtocol}

theorem withMsgId_eq (admissible : message.Admissible) :
    TinyPBCoder.withMsgId message = message := by
  simp [TinyPBCoder.withMsgId, admissible.msgId_ne_nil]

theorem frame_length (admissible : message.Admissible) :
    (TinyPBCoder.frame message).length = message.frameLength := by
  rw [TinyPBCoder.frame_length, admissible.withMsgId_eq]

end TinyPBProtocol.Admissible

end NetRpc
