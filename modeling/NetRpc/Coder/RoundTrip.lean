import NetRpc.Coder.FrontFrame

/-! # Decoding a stream of whole frames

The loop of the decoder takes the encodings of admissible messages off the
front of the buffer one by one, whatever follows them.
-/

namespace NetRpc.TinyPBCoder

open TinyPBProtocol

/-- The buffer after the frames of `messages` have been taken off its front. -/
def consume (buffer : TcpBuffer) (messages : List TinyPBProtocol) : TcpBuffer :=
  messages.foldl (fun buffer message => buffer.moveReadIndex message.frameLength) buffer

section Consume

variable {rest : Bytes}

/-- The decoder goes through the frames in front of `rest` and emits their
messages before anything else. -/
theorem returns_of_consume : ∀ {messages : List TinyPBProtocol} {buffer : TcpBuffer},
    buffer.Spare → (∀ message ∈ messages, message.Admissible) →
    buffer.readable = stream messages ++ rest →
    (consume buffer messages).Spare ∧
      (consume buffer messages).readable = rest ∧
      Loop.Reaches body buffer (consume buffer messages) ∧
      ∀ {later : List TinyPBProtocol} {final : TcpBuffer},
        Loop.Returns body (consume buffer messages) later final →
        Loop.Returns body buffer (messages.map measured ++ later) final
  | [], buffer, spare, _, readable => by
      exact ⟨spare, readable, .refl, id⟩
  | message :: messages, buffer, spare, admissible, readable => by
      rw [stream_cons, List.append_assoc] at readable
      have first := admissible message List.mem_cons_self
      have passed := body_frame spare first readable
      rcases returns_of_consume (moveReadIndex_frame_spare spare first readable)
          (fun later member => admissible later (List.mem_cons_of_mem _ member))
          (moveReadIndex_frame_readable spare first readable) with
        ⟨finalSpare, finalReadable, reaches, returns⟩
      refine ⟨finalSpare, finalReadable, .head ⟨_, passed⟩ reaches, ?_⟩
      intro later final tail
      exact .again passed (returns tail)

end Consume

/-- With nothing left to read the scan does not start. -/
theorem body_empty {buffer : TcpBuffer} (valid : buffer.Valid)
    (empty : buffer.readable = []) : body buffer = .ok .leave := by
  have size := congrArg List.length empty
  rw [TcpBuffer.readable_length valid, TcpBuffer.readAble, List.length_nil] at size
  rw [body, iteration, size]
  rfl

/-- The loop goes through the frames of a stream and leaves behind them. -/
theorem returns_stream {messages : List TinyPBProtocol} {buffer : TcpBuffer}
    (spare : buffer.Spare) (admissible : ∀ message ∈ messages, message.Admissible)
    (readable : buffer.readable = stream messages) :
    (consume buffer messages).readAble = 0 ∧
      Loop.Returns body buffer (messages.map measured) (consume buffer messages) := by
  rw [← List.append_nil (stream messages)] at readable
  rcases returns_of_consume spare admissible readable with
    ⟨finalSpare, finalReadable, _, returns⟩
  have whole := returns (.leave (body_empty finalSpare.toValid finalReadable))
  rw [List.append_nil] at whole
  refine ⟨?_, whole⟩
  rw [← TcpBuffer.readable_length finalSpare.toValid, finalReadable, List.length_nil]

/-- Decoding the concatenated encodings of admissible messages returns exactly
these messages, with the length fields that the encoder computed, and leaves
nothing to read. -/
theorem decode_stream {messages : List TinyPBProtocol} {buffer : TcpBuffer}
    (spare : buffer.Spare) (admissible : ∀ message ∈ messages, message.Admissible)
    (readable : buffer.readable = stream messages) :
    ∃ passes final, final.readAble = 0 ∧
      ∀ fuel, passes ≤ fuel → ∀ outMessages,
        decode fuel outMessages buffer =
          some (.ok (outMessages ++ messages.map measured, final)) := by
  rcases returns_stream spare admissible readable with ⟨drained, returns⟩
  rcases returns.run_eq with ⟨passes, runs⟩
  exact ⟨passes, consume buffer messages, drained, runs⟩

def ping : TinyPBProtocol where
  msgId := ascii "1"
  methodName := ascii "Order.makeOrder"
  errCode := -2

/-- A message whose payload is a whole frame. -/
def tunnel : TinyPBProtocol where
  msgId := ascii "2"
  pbData := frame ping

theorem ping_admissible : ping.Admissible := by
  constructor <;> decide

theorem tunnel_admissible : tunnel.Admissible := by
  constructor <;> decide

/-- A payload that looks like a frame is not decoded, at any offset of the
buffer and between any stale bytes. -/
theorem decode_stream_tunnel :
    ∃ passes final, TcpBuffer.readAble final = 0 ∧
      ∀ fuel, passes ≤ fuel → ∀ outMessages,
        decode fuel outMessages
            ⟨2, 2 + (stream [tunnel, ping]).length, [2, 3] ++ stream [tunnel, ping] ++ [2, 3]⟩ =
          some (.ok (outMessages ++ [tunnel.measured, ping.measured], final)) :=
  @decode_stream [tunnel, ping] _ ⟨⟨by decide, by decide, by decide⟩, by decide⟩
    (by simp [tunnel_admissible, ping_admissible]) (by decide)

end NetRpc.TinyPBCoder
