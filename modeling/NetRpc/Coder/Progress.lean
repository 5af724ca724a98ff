import NetRpc.Coder.Pass

/-! # When the decoder comes to an end -/

namespace NetRpc

namespace TcpBuffer

variable {buffer : TcpBuffer} {size : Int}

theorem moveReadIndex_readAble (valid : buffer.Valid) {moved : Nat}
    (target : (buffer.readIndex : Int) + size = moved)
    (within : moved ≤ buffer.writeIndex) (inside : moved < buffer.buffer.length) :
    (buffer.moveReadIndex size).readAble = buffer.writeIndex - moved := by
  have movedValid : (buffer.moveReadIndex size).Valid :=
    moveReadIndex_valid valid (by omega)
  rw [← readable_length movedValid, moveReadIndex_readable valid target within inside,
    window_length valid.writeLeSize]

/-- The readable bytes shrink exactly when the read cursor is moved forward and
is not refused. -/
theorem moveReadIndex_shrinks_iff (valid : buffer.Valid)
    (within : (buffer.readIndex : Int) + size ≤ buffer.writeIndex) :
    (buffer.moveReadIndex size).readAble < buffer.readAble ↔
      0 < size ∧ (buffer.readIndex : Int) + size < buffer.buffer.length := by
  have ordered := valid.readLeWrite
  by_cases outside : (buffer.readIndex : Int) + size < 0 ∨
      (buffer.buffer.length : Int) ≤ buffer.readIndex + size
  · rw [moveReadIndex_refused outside]
    refine iff_of_false (Nat.lt_irrefl _) ?_
    omega
  · have target : (buffer.readIndex : Int) + size =
        ((buffer.readIndex + size).toNat : Nat) := by omega
    rw [moveReadIndex_readAble valid target (by omega) (by omega), readAble]
    omega

end TcpBuffer

namespace TinyPBCoder

/-- A call comes to an end, consuming from the front of the readable bytes in
every pass that finds a frame, exactly when no pass meets a length that does
not fit and every accepted frame has a positive length that the storage has
room for behind the read cursor. -/
theorem decode_progress_iff {initial : TcpBuffer} (valid : initial.Valid) :
    (Loop.Terminates body initial ∧
      ∀ current next, Loop.Reaches body initial current →
        Loop.Turns body current next →
          next.readAble < current.readAble ∧ next.readable <:+ current.readable) ↔
    ∀ buffer, Loop.Reaches body initial buffer →
      LengthsFit (storageRegion buffer.buffer) buffer ∧
        ∀ i, Scanned buffer i → Accepts buffer.buffer buffer.writeIndex i →
          0 < lengthAt buffer.buffer (i + 1) ∧
            (buffer.readIndex : Int) + lengthAt buffer.buffer (i + 1) <
              buffer.buffer.length := by
  constructor
  · intro both buffer reaches
    have bufferValid := reaches_valid valid reaches
    have fits := (body_ok_iff bufferValid).mp (both.1.of_reaches reaches).passes
    refine ⟨fits, fun i isScanned accepts => ?_⟩
    have turns := (turns_iff bufferValid).mpr ⟨fits, i, isScanned, accepts, rfl⟩
    exact (TcpBuffer.moveReadIndex_shrinks_iff bufferValid
      (moved_le_writeIndex isScanned accepts)).mp (both.2 _ _ reaches turns).1
  · intro sound
    have shrinks : ∀ current next, Loop.Reaches body initial current →
        Loop.Turns body current next →
          next.readAble < current.readAble ∧ next.readable <:+ current.readable := by
      intro current next reaches turns
      have currentValid := reaches_valid valid reaches
      rcases (turns_iff currentValid).mp turns with ⟨_, i, isScanned, accepts, moved⟩
      have amount := (sound current reaches).2 i isScanned accepts
      have within := moved_le_writeIndex isScanned accepts
      have shorter := (TcpBuffer.moveReadIndex_shrinks_iff currentValid within).mpr amount
      generalize lengthAt current.buffer (i + 1) = length at *
      have natural : length = (length.toNat : Nat) := by omega
      rw [natural] at moved shorter
      rw [moved, TcpBuffer.moveReadIndex_drop currentValid (by omega) (by omega)]
      exact ⟨shorter, List.drop_suffix _ _⟩
    refine ⟨Loop.terminates_of_measure TcpBuffer.readAble ?_ ?_, shrinks⟩
    · intro buffer reaches
      exact (body_ok_iff (reaches_valid valid reaches)).mpr (sound buffer reaches).1
    · intro current next reaches turns
      exact (shrinks current next reaches turns).1

theorem twoFrames_progress :
    Loop.Terminates body twoFrames ∧
      ∀ current next, Loop.Reaches body twoFrames current →
        Loop.Turns body current next →
          next.readAble < current.readAble ∧ next.readable <:+ current.readable := by
  apply (decode_progress_iff twoFrames_spare.toValid).mpr
  intro buffer reaches
  have valid := (reaches_spare twoFrames_spare reaches).toValid
  rcases twoFrames_reaches reaches with ⟨passes, few, rfl⟩
  have inside : ∀ passes < 3, ∀ access ∈ (iteration (twoFramesAfter passes)).accesses,
      access.Inside (storageRegion (twoFramesAfter passes).buffer) := by
    decide +kernel
  have positive : ∀ passes < 3, ∀ i < (twoFramesAfter passes).writeIndex,
      Accepts (twoFramesAfter passes).buffer (twoFramesAfter passes).writeIndex i →
        0 < lengthAt (twoFramesAfter passes).buffer (i + 1) ∧
          ((twoFramesAfter passes).readIndex : Int) +
            lengthAt (twoFramesAfter passes).buffer (i + 1) <
              (twoFramesAfter passes).buffer.length := by
    decide +kernel
  refine ⟨(within_iteration valid (storageRegion_covers valid)).mp (inside passes few), ?_⟩
  intro i isScanned accepts
  exact positive passes few i isScanned.2 accepts

/-- A stray end marker in front of a frame that declares the length zero. -/
def zeroLength : TcpBuffer where
  readIndex := 0
  writeIndex := 6
  buffer := [0x03, 0x02, 0x00, 0x00, 0x00, 0x00] ++ List.replicate 122 0

/-- The frame is accepted and consumes nothing, so every pass finds it again. -/
theorem zeroLength_endless :
    zeroLength.Valid ∧ ¬Loop.Terminates body zeroLength := by
  have turned : body zeroLength = .ok (.again zeroLength none) := by
    decide +kernel
  exact ⟨⟨by decide +kernel, by decide +kernel, by decide +kernel⟩,
    Loop.not_terminates_of_turns_self ⟨none, turned⟩⟩

end TinyPBCoder

end NetRpc
