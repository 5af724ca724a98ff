import NetRpc.Coder.Pass
import NetRpc.Coder.RoundTrip

/-! # Frames that are rejected

A frame is consumed before its fields are parsed. Where one of the checks of
the parser rejects it, nothing is emitted, and the next pass starts right
behind it.
-/

namespace NetRpc.TinyPBCoder

open TinyPBProtocol

/-- The bytes have both markers and declare their own number. -/
structure Delimited (bytes : Bytes) : Prop where
  long : 6 ≤ bytes.length
  start : bytes.getD 0 0 = pbStart
  length : lengthAt bytes 1 = bytes.length
  finish : bytes.getD (bytes.length - 1) 0 = pbEnd

/-- The parser comes to one of its four checks of an index, and the candidate
at the read cursor fails it. -/
def RejectedInFront (buffer : TcpBuffer) : Prop :=
  (parse buffer.buffer (candidateAt buffer.buffer buffer.readIndex)).Yields none

instance (buffer : TcpBuffer) : Decidable (RejectedInFront buffer) :=
  inferInstanceAs (Decidable (Traced.Yields _ _))

section Front

variable {buffer : TcpBuffer} {bytes rest : Bytes}

theorem int32At_of_occurs_drop {tmp : Bytes} {index offset : Nat}
    (occurs : OccursAt tmp index bytes) (inside : offset + 4 ≤ bytes.length) :
    int32At tmp (index + offset : Nat) = int32At bytes offset := by
  rcases occurs.drop offset (by omega) with ⟨later, equal⟩
  rw [int32At, int32At, Int.toNat_natCast, Int.toNat_natCast, ← equal,
    getInt32FromNetByte_append]
  rw [List.length_drop]
  omega

/-- The frame at the read cursor ends in front of the write cursor. -/
theorem front_within (valid : buffer.Valid) (readable : buffer.readable = bytes ++ rest) :
    buffer.readIndex + bytes.length + rest.length = buffer.writeIndex := by
  have size := congrArg List.length readable
  have ordered := valid.readLeWrite
  rw [TcpBuffer.readable_length valid, TcpBuffer.readAble, List.length_append] at size
  omega

theorem lengthAt_front (delimited : Delimited bytes)
    (readable : buffer.readable = bytes ++ rest) :
    lengthAt buffer.buffer (buffer.readIndex + 1) = bytes.length := by
  have long := delimited.long
  have same := int32At_of_occurs_drop (OccursAt.of_window readable)
    (show 1 + 4 ≤ bytes.length by omega)
  rw [← delimited.length, lengthAt, lengthAt]
  exact congrArg Int32.toInt same

theorem endAt_front (delimited : Delimited bytes)
    (readable : buffer.readable = bytes ++ rest) :
    endAt buffer.buffer buffer.readIndex =
      (buffer.readIndex + (bytes.length - 1) : Nat) := by
  have long := delimited.long
  rw [endAt, lengthAt_front delimited readable]
  omega

theorem accepts_front (valid : buffer.Valid) (delimited : Delimited bytes)
    (readable : buffer.readable = bytes ++ rest) :
    Accepts buffer.buffer buffer.writeIndex buffer.readIndex := by
  have long := delimited.long
  have within := front_within valid readable
  have occurs := OccursAt.of_window readable
  have finish := endAt_front delimited readable
  refine ⟨⟨?_, by omega⟩, by omega, ?_⟩
  · rw [← delimited.start]
    exact occurs.getD_add (show 0 < bytes.length by omega) 0
  · rw [finish, Int.toNat_natCast, ← delimited.finish]
    exact occurs.getD_add (show bytes.length - 1 < bytes.length by omega) 0

/-- The scan accepts the frame at once, whatever the parser makes of it. -/
theorem body_front (valid : buffer.Valid) (delimited : Delimited bytes)
    (readable : buffer.readable = bytes ++ rest) {item : Option TinyPBProtocol}
    (parsed : (parse buffer.buffer
      (candidateAt buffer.buffer buffer.readIndex)).Yields item) :
    body buffer = .ok (.again (buffer.moveReadIndex bytes.length) item) := by
  have long := delimited.long
  have within := front_within valid readable
  have inStorage := valid.writeLeSize
  have fitsInt := valid.sizeFitsInt
  have accepts := accepts_front valid delimited readable
  have length := lengthAt_front delimited readable
  have finish := endAt_front delimited readable
  have here : Scanned buffer buffer.readIndex := ⟨comesTo_self _ _ _, by omega⟩
  apply (body_again_iff valid).mpr
  refine ⟨fun i isScanned _ => ?_, buffer.readIndex, here, accepts, parsed, by rw [length]⟩
  have first : i = buffer.readIndex := by
    rcases Nat.eq_or_lt_of_le isScanned.1.1 with same | beyond
    · exact same.symm
    · exact absurd accepts (isScanned.1.2 _ (Nat.le_refl _) beyond)
  rw [first, ProbeFits, length, finish]
  simp only [storageRegion]
  omega

theorem moveReadIndex_front_spare (spare : buffer.Spare)
    (readable : buffer.readable = bytes ++ rest) :
    (buffer.moveReadIndex bytes.length).Spare := by
  have within := front_within spare.toValid readable
  exact TcpBuffer.moveReadIndex_spare spare (by omega)

theorem moveReadIndex_front_readable (spare : buffer.Spare)
    (readable : buffer.readable = bytes ++ rest) :
    (buffer.moveReadIndex bytes.length).readable = rest := by
  have within := front_within spare.toValid readable
  have writeLtSize := spare.writeLtSize
  rw [TcpBuffer.moveReadIndex_drop spare.toValid (by omega) (by omega), readable,
    List.drop_left]

end Front

/-- A rejected frame in front of the encodings of admissible messages is
consumed, and exactly what is emitted for the encodings alone is emitted. -/
theorem rejected_leaves_no_trace {buffer alone : TcpBuffer} (spare : buffer.Spare)
    (aloneSpare : alone.Spare) {bytes : Bytes} (delimited : Delimited bytes)
    {messages : List TinyPBProtocol} (admissible : ∀ message ∈ messages, message.Admissible)
    (readable : buffer.readable = bytes ++ stream messages)
    (aloneReadable : alone.readable = stream messages) (rejected : RejectedInFront buffer) :
    ∃ passes emitted final finalAlone, final.readAble = 0 ∧
      ∀ fuel, passes ≤ fuel → ∀ outMessages,
        decode fuel outMessages buffer = some (.ok (outMessages ++ emitted, final)) ∧
        decode fuel outMessages alone = some (.ok (outMessages ++ emitted, finalAlone)) := by
  have skipped := body_front spare.toValid delimited readable rejected
  have behind := moveReadIndex_front_readable spare readable
  rcases returns_stream (moveReadIndex_front_spare spare readable) admissible behind with
    ⟨drained, later⟩
  have returns := Loop.Returns.again skipped later
  have aloneReturns := (returns_stream aloneSpare admissible aloneReadable).2
  rcases returns.run_eq with ⟨passes, runs⟩
  rcases aloneReturns.run_eq with ⟨alonePasses, aloneRuns⟩
  refine ⟨max passes alonePasses, messages.map measured, _, consume alone messages, drained, ?_⟩
  intro fuel enough outMessages
  exact ⟨runs fuel (Nat.le_trans (Nat.le_max_left _ _) enough) outMessages,
    aloneRuns fuel (Nat.le_trans (Nat.le_max_right _ _) enough) outMessages⟩

/-- Nine bytes that look like a frame. Their end marker is also the last byte of
the length of an id. -/
def stub : Bytes := [0x02, 0x00, 0x00, 0x00, 0x09, 0x00, 0x00, 0x00, 0x03]

/-- The frame is rejected at the second check, after the first three bytes of
the next frame have been taken for its id. -/
theorem rejected_stub :
    ∃ passes emitted final finalAlone, TcpBuffer.readAble final = 0 ∧
      ∀ fuel, passes ≤ fuel → ∀ outMessages,
        decode fuel outMessages (TcpBuffer.mk 0 51 (stub ++ frame ping ++ [0])) =
          some (.ok (outMessages ++ emitted, final)) ∧
        decode fuel outMessages (TcpBuffer.mk 0 42 (frame ping ++ [0])) =
          some (.ok (outMessages ++ emitted, finalAlone)) := by
  have delimited : Delimited stub :=
    ⟨by decide, by decide, by decide +kernel, by decide⟩
  exact @rejected_leaves_no_trace _ _ ⟨⟨by decide, by decide +kernel, by decide +kernel⟩,
      by decide +kernel⟩
    ⟨⟨by decide, by decide +kernel, by decide +kernel⟩, by decide +kernel⟩ stub delimited
    [ping] (by simp [ping_admissible]) (by decide +kernel) (by decide +kernel)
    (by decide +kernel)

end NetRpc.TinyPBCoder
