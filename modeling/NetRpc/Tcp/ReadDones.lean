import NetRpc.Coder.Decode
import Mathlib.Logic.Function.Basic

/-! # The read callbacks of a client

The client branch of `excute` runs, for each decoded message, the callback that
is registered under its id, and forgets it. What the callbacks work on is a
parameter.
-/

namespace NetRpc.TcpConnection

/-- The reading half of a client's connection. -/
structure Reader (World : Type u) where
  inBuffer : TcpBuffer
  readDones : Bytes → Option (TinyPBProtocol → World → World)

namespace Reader

variable {World : Type u}

/-- `map::insert` keeps a callback that is registered already. -/
def pushReadMessage (reader : Reader World) (msgId : Bytes)
    (done : TinyPBProtocol → World → World) : Reader World :=
  match reader.readDones msgId with
  | some _ => reader
  | none => { reader with readDones := Function.update reader.readDones msgId (some done) }

theorem pushReadMessage_absent {reader : Reader World} {msgId : Bytes}
    (absent : reader.readDones msgId = none) (done : TinyPBProtocol → World → World) :
    (reader.pushReadMessage msgId done).readDones msgId = some done ∧
      (reader.pushReadMessage msgId done).inBuffer = reader.inBuffer := by
  rw [pushReadMessage, absent]
  exact ⟨Function.update_self _ _ _, rfl⟩

/-- Run the callback of one message. -/
def deliver (state : Reader World × World) (message : TinyPBProtocol) :
    Reader World × World :=
  match state.1.readDones message.msgId with
  | some done =>
      ({ state.1 with readDones := Function.update state.1.readDones message.msgId none },
        done message state.2)
  | none => state

/-- The client branch of `excute`, decoding for at most `fuel` passes. -/
def excute (fuel : Nat) (reader : Reader World) (world : World) :
    Option (Except Access (Reader World × World)) :=
  (TinyPBCoder.decode fuel [] reader.inBuffer).map fun decoded =>
    decoded.map fun result =>
      result.1.foldl deliver ({ reader with inBuffer := result.2 }, world)

/-- A single message whose callback is registered. -/
theorem excute_single {fuel : Nat} {reader : Reader World} {world : World}
    {message : TinyPBProtocol} {final : TcpBuffer}
    {done : TinyPBProtocol → World → World}
    (decoded : TinyPBCoder.decode fuel [] reader.inBuffer = some (.ok ([message], final)))
    (registered : reader.readDones message.msgId = some done) :
    reader.excute fuel world =
      some (.ok
        ({ inBuffer := final
           readDones := Function.update reader.readDones message.msgId none },
          done message world)) := by
  rw [excute, decoded, Option.map_some, Except.map, List.foldl_cons, List.foldl_nil, deliver,
    registered]

end Reader

end NetRpc.TcpConnection
