import NetRpc.Tcp.Buffer

/-! # The cursor moves of TcpBuffer

Both moves compare the moved index with the size of the storage and refuse one
that meets its end, although an index may stand there.
-/

namespace NetRpc.TcpBuffer

/-- The first `count` readable bytes are gone and the others are kept. -/
def DropsExactly (buffer : TcpBuffer) (count : Nat) : Prop :=
  (buffer.moveReadIndex count).readable = buffer.readable.drop count

/-- The `count` bytes that were stored behind the write cursor are appended. -/
def AppendsExactly (buffer : TcpBuffer) (count : Nat) : Prop :=
  (buffer.moveWriteIndex count).readable =
    buffer.readable ++ window buffer.buffer buffer.writeIndex (buffer.writeIndex + count)

instance (buffer : TcpBuffer) : DecidablePred buffer.DropsExactly :=
  fun _ => inferInstanceAs (Decidable (_ = _))

instance (buffer : TcpBuffer) : DecidablePred buffer.AppendsExactly :=
  fun _ => inferInstanceAs (Decidable (_ = _))

variable {buffer : TcpBuffer} {count : Nat}

theorem dropsExactly_iff (valid : buffer.Valid) (within : count ≤ buffer.readAble) :
    buffer.DropsExactly count ↔
      count = 0 ∨ buffer.readIndex + count < buffer.buffer.length := by
  have ordered := valid.readLeWrite
  rcases Nat.lt_or_ge (buffer.readIndex + count) buffer.buffer.length with inside | outside
  · have below : buffer.readIndex + count ≤ buffer.writeIndex := by
      rw [readAble] at within
      omega
    have drops : buffer.DropsExactly count := moveReadIndex_drop valid below inside
    exact iff_of_true drops (.inr inside)
  · rw [DropsExactly, moveReadIndex_refused (.inr (by omega))]
    have length := readable_length valid
    constructor
    · intro same
      have shorter := congrArg List.length same
      rw [List.length_drop, length] at shorter
      omega
    · intro none
      have zero : count = 0 := by omega
      rw [zero, List.drop_zero]

theorem appendsExactly_iff (valid : buffer.Valid) (within : count ≤ buffer.writeAble) :
    buffer.AppendsExactly count ↔
      count = 0 ∨ buffer.writeIndex + count < buffer.buffer.length := by
  have inStorage := valid.writeLeSize
  rcases Nat.lt_or_ge (buffer.writeIndex + count) buffer.buffer.length with inside | outside
  · have appends : buffer.AppendsExactly count := moveWriteIndex_append valid inside
    exact iff_of_true appends (.inr inside)
  · rw [AppendsExactly, moveWriteIndex_refused (.inr (by omega))]
    constructor
    · intro same
      have longer := congrArg List.length same
      rw [writeAble] at within
      rw [List.length_append, window_length (by omega)] at longer
      omega
    · intro none
      have zero : count = 0 := by omega
      rw [zero, Nat.add_zero, window_self, List.append_nil]

/-- Both moves keep the cursors in order, and they are exact unless they meet
the end of the storage. -/
theorem cursor_moves_exact_iff (valid : buffer.Valid) (count : Nat) :
    (count ≤ buffer.readAble →
        (buffer.moveReadIndex count).Valid ∧
          (buffer.DropsExactly count ↔
            count = 0 ∨ buffer.readIndex + count < buffer.buffer.length)) ∧
      (count ≤ buffer.writeAble →
        (buffer.moveWriteIndex count).Valid ∧
          (buffer.AppendsExactly count ↔
            count = 0 ∨ buffer.writeIndex + count < buffer.buffer.length)) := by
  have ordered := valid.readLeWrite
  constructor
  · intro within
    rw [readAble] at within
    exact ⟨moveReadIndex_valid valid (by omega), dropsExactly_iff valid within⟩
  · intro within
    exact ⟨moveWriteIndex_valid valid (by omega), appendsExactly_iff valid within⟩

/-- Four readable bytes in a storage of six. -/
def partlyFilled : TcpBuffer where
  readIndex := 1
  writeIndex := 5
  buffer := [0, 1, 2, 3, 4, 5]

theorem cursor_moves_exact_partlyFilled :
    (partlyFilled.moveReadIndex 4).Valid ∧ partlyFilled.DropsExactly 4 ∧
      (partlyFilled.moveWriteIndex 1).Valid ∧ ¬partlyFilled.AppendsExactly 1 := by
  have valid : partlyFilled.Valid := ⟨by decide, by decide, by decide⟩
  rcases cursor_moves_exact_iff valid 4 with ⟨readMove, _⟩
  rcases cursor_moves_exact_iff valid 1 with ⟨_, writeMove⟩
  rcases readMove (by decide) with ⟨readValid, drops⟩
  rcases writeMove (by decide) with ⟨writeValid, appends⟩
  exact ⟨readValid, drops.mpr (by decide), writeValid, fun exact =>
    absurd (appends.mp exact) (by decide)⟩

/-- A full storage from which everything is consumed, and an empty one that is
filled. -/
theorem cursor_moves_inexact :
    let full : TcpBuffer := ⟨0, 4, [1, 2, 3, 4]⟩
    let empty : TcpBuffer := ⟨0, 0, [1, 2, 3, 4]⟩
    full.Valid ∧ 4 ≤ full.readAble ∧ ¬full.DropsExactly 4 ∧
      empty.Valid ∧ 4 ≤ empty.writeAble ∧ ¬empty.AppendsExactly 4 := by
  intro full empty
  have fullValid : full.Valid := ⟨by decide, by decide, by decide⟩
  have emptyValid : empty.Valid := ⟨by decide, by decide, by decide⟩
  exact ⟨fullValid, by decide, by decide, emptyValid, by decide, by decide⟩

end NetRpc.TcpBuffer
