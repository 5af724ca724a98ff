import NetRpc.Foundation.Transition
import NetRpc.Tcp.Buffer

/-! # StringCoder

The coder of plain strings, which rests on the copying interface of TcpBuffer
alone. A decoded message is whatever is readable: the bytes of a stream of
strings arrive, and the boundaries between them do not.
-/

namespace NetRpc

structure StringProtocol where
  info : Bytes
  msgId : Bytes := []
deriving DecidableEq

namespace StringCoder

def encode : List StringProtocol → TcpBuffer → Option TcpBuffer
  | [], outBuffer => some outBuffer
  | message :: messages, outBuffer => do
      let outBuffer ← outBuffer.writeToBuffer message.info
      encode messages outBuffer

def decode (outMessages : List StringProtocol) (buffer : TcpBuffer) :
    List StringProtocol × TcpBuffer :=
  let (re, rest) := buffer.readFromBuffer [] buffer.readAble
  (outMessages ++ [{ info := re, msgId := ascii "123456" }], rest)

theorem encode_spec {messages : List StringProtocol} {outBuffer next : TcpBuffer}
    (valid : outBuffer.Valid) (encoded : encode messages outBuffer = some next) :
    next.Valid ∧
      next.readable = outBuffer.readable ++ messages.flatMap StringProtocol.info := by
  induction messages generalizing outBuffer with
  | nil =>
      cases encoded
      exact ⟨valid, (List.append_nil _).symm⟩
  | cons message messages induction =>
      simp only [encode, Option.bind_eq_bind, Option.bind_eq_some_iff] at encoded
      rcases encoded with ⟨written, isWritten, rest⟩
      have writtenValid := TcpBuffer.writeToBuffer_valid valid isWritten
      rcases induction writtenValid rest with ⟨finalValid, readable⟩
      refine ⟨finalValid, ?_⟩
      rw [readable, TcpBuffer.writeToBuffer_readable valid isWritten, List.flatMap_cons,
        List.append_assoc]

/-- Decoding takes everything that is readable as one message. -/
theorem decode_spec {buffer : TcpBuffer} (valid : buffer.Valid)
    (outMessages : List StringProtocol) :
    (decode outMessages buffer).1 =
        outMessages ++ [{ info := buffer.readable, msgId := ascii "123456" }] ∧
      (decode outMessages buffer).2.Valid ∧
      (decode outMessages buffer).2.readable = [] := by
  have length := TcpBuffer.readable_length valid
  by_cases empty : buffer.readAble = 0
  · have nothing : buffer.readable = [] :=
      List.length_eq_zero_iff.mp (length.trans empty)
    simp only [decode, TcpBuffer.readFromBuffer_empty empty, nothing]
    exact ⟨trivial, valid, trivial⟩
  · rcases TcpBuffer.readFromBuffer_spec valid empty [] buffer.readAble with
      ⟨first, restValid, rest⟩
    have all : (buffer.readFromBuffer [] buffer.readAble).1 = buffer.readable := by
      rw [first, ← length, List.take_length]
    have none : (buffer.readFromBuffer [] buffer.readAble).2.readable = [] := by
      rw [rest, ← length, List.drop_length]
    simp only [decode, all, none]
    exact ⟨trivial, restValid, trivial⟩

/-! ## A stream of strings -/

inductive Call
  | encode (messages : List StringProtocol)
  | decode
deriving DecidableEq

/-- A buffer that is written by one coder and read by another. -/
structure Stream where
  buffer : TcpBuffer
  outMessages : List StringProtocol := []
deriving DecidableEq

def Stream.perform (stream : Stream) : Call → Option Stream
  | .encode messages =>
      (encode messages stream.buffer).map fun buffer => { stream with buffer }
  | .decode =>
      let (outMessages, buffer) := decode stream.outMessages stream.buffer
      some { buffer, outMessages }

def streaming : Transition.System Stream Call where
  Initial stream := stream.buffer.Valid ∧ stream.buffer.readable = [] ∧ stream.outMessages = []
  Step current call next := current.perform call = some next

/-- The texts of the messages decoded, and the bytes on their way behind them. -/
def joined : List Bytes × Bytes → Call → List Bytes × Bytes
  | (texts, waiting), .encode messages =>
      (texts, waiting ++ messages.flatMap StringProtocol.info)
  | (texts, waiting), .decode => (texts ++ [waiting], [])

structure Stream.Carries (stream : Stream) (contents : List Bytes × Bytes) : Prop where
  valid : stream.buffer.Valid
  decoded : stream.outMessages = contents.1.map fun info => { info, msgId := ascii "123456" }
  waiting : stream.buffer.readable = contents.2

theorem Stream.Carries.step {current next : Stream} {call : Call}
    {contents : List Bytes × Bytes} (carries : current.Carries contents)
    (performed : current.perform call = some next) : next.Carries (joined contents call) := by
  rcases carries with ⟨valid, decoded, waiting⟩
  cases call with
  | encode messages =>
      rw [perform, Option.map_eq_some_iff] at performed
      rcases performed with ⟨buffer, encoded, rfl⟩
      rcases encode_spec valid encoded with ⟨nextValid, readable⟩
      constructor
      · exact nextValid
      · exact decoded
      · rw [readable, waiting, joined]
  | decode =>
      simp only [perform, Option.some.injEq] at performed
      subst performed
      rcases decode_spec valid current.outMessages with ⟨messages, nextValid, nothing⟩
      constructor
      · exact nextValid
      · rw [messages, decoded, waiting, joined, List.map_append, List.map_singleton]
      · exact nothing

/-- Two messages are decoded as one, and then a message before any is encoded. -/
def helloWorld : List Call :=
  [.encode [{ info := ascii "hello, " }, { info := ascii "world" }], .decode, .decode,
    .encode [{ info := ascii "again" }]]

theorem helloWorld_computes :
    (helloWorld.foldlM Stream.perform { buffer := .new 4 }).isSome := by
  decide +kernel

end StringCoder

end NetRpc
