import NetRpc.Common.NetByte
import NetRpc.Foundation.Occurrence

/-! # TcpBuffer

A read cursor and a write cursor over one flat storage. The bytes between the
cursors are the readable contents; what stands outside of them is stale.
-/

namespace NetRpc

structure TcpBuffer where
  readIndex : Nat
  writeIndex : Nat
  buffer : Bytes
deriving DecidableEq

namespace TcpBuffer

def new (size : Nat) : TcpBuffer where
  readIndex := 0
  writeIndex := 0
  buffer := List.replicate size 0

def readAble (buffer : TcpBuffer) : Nat :=
  buffer.writeIndex - buffer.readIndex

def writeAble (buffer : TcpBuffer) : Nat :=
  buffer.buffer.length - buffer.writeIndex

/-- A fresh zeroed storage of `newSize` bytes with the first `count` readable
bytes at its head. -/
def copyToFront (buffer : TcpBuffer) (newSize count : Nat) : TcpBuffer where
  readIndex := 0
  writeIndex := count
  buffer := overwrite (List.replicate newSize 0) 0
    ((buffer.buffer.drop buffer.readIndex).take count)

def resizeBuffer (buffer : TcpBuffer) (newSize : Nat) : TcpBuffer :=
  buffer.copyToFront newSize (min newSize buffer.readAble)

def adjustBuffer (buffer : TcpBuffer) : TcpBuffer :=
  if buffer.readIndex < buffer.buffer.length / 3 then
    buffer
  else
    buffer.copyToFront buffer.buffer.length buffer.readAble

/-- The moved index is compared as a `size_t`, so a negative one is refused
like one behind the storage. -/
def moveReadIndex (buffer : TcpBuffer) (size : Int) : TcpBuffer :=
  let moved := buffer.readIndex + size
  if moved < 0 ∨ (buffer.buffer.length : Int) ≤ moved then
    buffer
  else
    { buffer with readIndex := moved.toNat }.adjustBuffer

def moveWriteIndex (buffer : TcpBuffer) (size : Int) : TcpBuffer :=
  let moved := buffer.writeIndex + size
  if moved < 0 ∨ (buffer.buffer.length : Int) ≤ moved then
    buffer
  else
    { buffer with writeIndex := moved.toNat }.adjustBuffer

/-- A `read()` puts `bytes` behind the write cursor, which is then moved. -/
def receive (buffer : TcpBuffer) (bytes : Bytes) : TcpBuffer :=
  { buffer with buffer := overwrite buffer.buffer buffer.writeIndex bytes }.moveWriteIndex
    bytes.length

/-- The `memcpy` of `writeToBuffer`, which moves the write cursor itself. -/
def store (buffer : TcpBuffer) (bytes : Bytes) : TcpBuffer :=
  { buffer with
    writeIndex := buffer.writeIndex + bytes.length
    buffer := overwrite buffer.buffer buffer.writeIndex bytes }

/-- Append `bytes`, growing the storage to one and a half times the used space
when they do not fit. The result is `none` when the new size leaves the range
of `int`. -/
def writeToBuffer (buffer : TcpBuffer) (bytes : Bytes) : Option TcpBuffer :=
  if buffer.writeAble < bytes.length then
    let newSize := 3 * (buffer.writeIndex + bytes.length) / 2
    if newSize < 2 ^ 31 then some ((buffer.resizeBuffer newSize).store bytes) else none
  else
    some (buffer.store bytes)

/-- Take the first `size` readable bytes, or all when there are fewer. On an
empty buffer the vector `re` of the caller stays as it was. -/
def readFromBuffer (buffer : TcpBuffer) (re : Bytes) (size : Nat) : Bytes × TcpBuffer :=
  if buffer.readAble = 0 then
    (re, buffer)
  else
    let readSize := if size < buffer.readAble then size else buffer.readAble
    ((buffer.buffer.drop buffer.readIndex).take readSize,
      { buffer with readIndex := buffer.readIndex + readSize }.adjustBuffer)

/-! ## The byte queue behind the cursors -/

/-- The bytes that have been written and not yet consumed. -/
def readable (buffer : TcpBuffer) : Bytes :=
  window buffer.buffer buffer.readIndex buffer.writeIndex

/-- The cursors are ordered and inside the storage, whose size is an `int`. -/
structure Valid (buffer : TcpBuffer) : Prop where
  readLeWrite : buffer.readIndex ≤ buffer.writeIndex
  writeLeSize : buffer.writeIndex ≤ buffer.buffer.length
  sizeFitsInt : buffer.buffer.length < 2 ^ 31

/-- A valid buffer whose write cursor has not reached the end of the storage. -/
structure Spare (buffer : TcpBuffer) : Prop extends Valid buffer where
  writeLtSize : buffer.writeIndex < buffer.buffer.length

theorem readable_length {buffer : TcpBuffer} (valid : buffer.Valid) :
    buffer.readable.length = buffer.readAble :=
  window_length valid.writeLeSize

theorem new_valid {size : Nat} (fits : size < 2 ^ 31) : (new size).Valid where
  readLeWrite := Nat.le_refl 0
  writeLeSize := Nat.zero_le _
  sizeFitsInt := by simpa [new] using fits

theorem new_spare {size : Nat} (positive : 0 < size) (fits : size < 2 ^ 31) :
    (new size).Spare where
  toValid := new_valid fits
  writeLtSize := by simpa [new] using positive

@[simp] theorem new_readable (size : Nat) : (new size).readable = [] :=
  window_self _ _

section CopyToFront

variable {buffer : TcpBuffer} {newSize count : Nat}

private theorem copied_length (valid : buffer.Valid) (within : count ≤ buffer.readAble) :
    ((buffer.buffer.drop buffer.readIndex).take count).length = count := by
  have inside := valid.writeLeSize
  rw [readAble] at within
  simp
  omega

theorem copyToFront_size (valid : buffer.Valid) (within : count ≤ buffer.readAble)
    (fits : count ≤ newSize) :
    (buffer.copyToFront newSize count).buffer.length = newSize := by
  rw [copyToFront, overwrite_length, List.length_replicate]
  rw [copied_length valid within, List.length_replicate]
  omega

theorem copyToFront_readable (valid : buffer.Valid) (within : count ≤ buffer.readAble) :
    (buffer.copyToFront newSize count).readable = buffer.readable.take count := by
  have length := copied_length valid within
  have atFront := @window_overwrite_at Byte (List.replicate newSize 0)
    ((buffer.buffer.drop buffer.readIndex).take count) 0 (Nat.zero_le _)
  rw [Nat.zero_add, length] at atFront
  rw [readable, copyToFront, atFront, readable, window, List.take_take]
  exact congrArg (List.take · _) (Nat.min_eq_left within).symm

theorem copyToFront_valid (valid : buffer.Valid) (within : count ≤ buffer.readAble)
    (fits : count ≤ newSize) (sizeFits : newSize < 2 ^ 31) :
    (buffer.copyToFront newSize count).Valid where
  readLeWrite := Nat.zero_le _
  writeLeSize := by
    rw [copyToFront_size valid within fits]
    exact fits
  sizeFitsInt := by
    rw [copyToFront_size valid within fits]
    exact sizeFits

end CopyToFront

section AdjustBuffer

variable {buffer : TcpBuffer}

private theorem readAble_le_size (valid : buffer.Valid) :
    buffer.readAble ≤ buffer.buffer.length :=
  Nat.le_trans (Nat.sub_le _ _) valid.writeLeSize

@[simp] theorem adjustBuffer_size (valid : buffer.Valid) :
    buffer.adjustBuffer.buffer.length = buffer.buffer.length := by
  rw [adjustBuffer]
  split
  · rfl
  · exact copyToFront_size valid (Nat.le_refl _) (readAble_le_size valid)

@[simp] theorem adjustBuffer_readable (valid : buffer.Valid) :
    buffer.adjustBuffer.readable = buffer.readable := by
  rw [adjustBuffer]
  split
  · rfl
  · rw [copyToFront_readable valid (Nat.le_refl _), ← readable_length valid,
      List.take_length]

theorem adjustBuffer_valid (valid : buffer.Valid) : buffer.adjustBuffer.Valid := by
  rw [adjustBuffer]
  split
  · exact valid
  · exact copyToFront_valid valid (Nat.le_refl _) (readAble_le_size valid)
      valid.sizeFitsInt

theorem adjustBuffer_writeIndex_le (buffer : TcpBuffer) :
    buffer.adjustBuffer.writeIndex ≤ buffer.writeIndex := by
  rw [adjustBuffer]
  split
  · exact Nat.le_refl _
  · exact Nat.sub_le _ _

end AdjustBuffer

section MoveReadIndex

variable {buffer : TcpBuffer} {size : Int}

theorem moveReadIndex_refused
    (outside : (buffer.readIndex : Int) + size < 0 ∨
      (buffer.buffer.length : Int) ≤ buffer.readIndex + size) :
    buffer.moveReadIndex size = buffer := by
  simp [moveReadIndex, outside]

theorem moveReadIndex_accepted (nonnegative : 0 ≤ (buffer.readIndex : Int) + size)
    (inside : (buffer.readIndex : Int) + size < buffer.buffer.length) :
    buffer.moveReadIndex size =
      { buffer with readIndex := (buffer.readIndex + size).toNat }.adjustBuffer := by
  have notOutside : ¬((buffer.readIndex : Int) + size < 0 ∨
      (buffer.buffer.length : Int) ≤ buffer.readIndex + size) := by omega
  simp [moveReadIndex, notOutside]

private theorem movedRead_valid (valid : buffer.Valid) {moved : Nat}
    (within : moved ≤ buffer.writeIndex) :
    ({ buffer with readIndex := moved } : TcpBuffer).Valid where
  readLeWrite := within
  writeLeSize := valid.writeLeSize
  sizeFitsInt := valid.sizeFitsInt

/-- The cursors stay valid whatever the amount, as long as it does not lead
behind the write cursor. -/
theorem moveReadIndex_valid (valid : buffer.Valid)
    (within : (buffer.readIndex : Int) + size ≤ buffer.writeIndex) :
    (buffer.moveReadIndex size).Valid := by
  simp only [moveReadIndex]
  split
  · exact valid
  · exact adjustBuffer_valid (movedRead_valid valid (by omega))

theorem moveReadIndex_spare (spare : buffer.Spare)
    (within : (buffer.readIndex : Int) + size ≤ buffer.writeIndex) :
    (buffer.moveReadIndex size).Spare where
  toValid := moveReadIndex_valid spare.toValid within
  writeLtSize := by
    have writeLtSize := spare.writeLtSize
    simp only [moveReadIndex]
    split
    · exact writeLtSize
    · rw [adjustBuffer_size (movedRead_valid spare.toValid (by omega))]
      exact Nat.lt_of_le_of_lt (adjustBuffer_writeIndex_le _) writeLtSize

/-- An accepted move to `moved` leaves the bytes from there on. -/
theorem moveReadIndex_readable (valid : buffer.Valid) {moved : Nat}
    (target : (buffer.readIndex : Int) + size = moved)
    (within : moved ≤ buffer.writeIndex) (inside : moved < buffer.buffer.length) :
    (buffer.moveReadIndex size).readable =
      window buffer.buffer moved buffer.writeIndex := by
  rw [moveReadIndex_accepted (by omega) (by omega), target, Int.toNat_natCast,
    adjustBuffer_readable (movedRead_valid valid within)]
  rfl

/-- Moving forward by `count` removes exactly the first `count` readable
bytes. -/
theorem moveReadIndex_drop (valid : buffer.Valid) {count : Nat}
    (within : buffer.readIndex + count ≤ buffer.writeIndex)
    (inside : buffer.readIndex + count < buffer.buffer.length) :
    (buffer.moveReadIndex count).readable = buffer.readable.drop count := by
  rw [moveReadIndex_readable valid (Int.natCast_add _ _).symm within inside,
    window_drop]
  rfl

end MoveReadIndex

section MoveWriteIndex

variable {buffer : TcpBuffer} {size : Int}

theorem moveWriteIndex_refused
    (outside : (buffer.writeIndex : Int) + size < 0 ∨
      (buffer.buffer.length : Int) ≤ buffer.writeIndex + size) :
    buffer.moveWriteIndex size = buffer := by
  simp [moveWriteIndex, outside]

theorem moveWriteIndex_accepted (nonnegative : 0 ≤ (buffer.writeIndex : Int) + size)
    (inside : (buffer.writeIndex : Int) + size < buffer.buffer.length) :
    buffer.moveWriteIndex size =
      { buffer with writeIndex := (buffer.writeIndex + size).toNat }.adjustBuffer := by
  have notOutside : ¬((buffer.writeIndex : Int) + size < 0 ∨
      (buffer.buffer.length : Int) ≤ buffer.writeIndex + size) := by omega
  simp [moveWriteIndex, notOutside]

private theorem movedWrite_valid (valid : buffer.Valid) {moved : Nat}
    (above : buffer.writeIndex ≤ moved) (within : moved ≤ buffer.buffer.length) :
    ({ buffer with writeIndex := moved } : TcpBuffer).Valid where
  readLeWrite := Nat.le_trans valid.readLeWrite above
  writeLeSize := within
  sizeFitsInt := valid.sizeFitsInt

theorem moveWriteIndex_valid (valid : buffer.Valid) (nonnegative : 0 ≤ size) :
    (buffer.moveWriteIndex size).Valid := by
  simp only [moveWriteIndex]
  split
  · exact valid
  · exact adjustBuffer_valid (movedWrite_valid valid (by omega) (by omega))

/-- Moving forward by `count` appends the bytes that stand behind the write
cursor. -/
theorem moveWriteIndex_append (valid : buffer.Valid) {count : Nat}
    (inside : buffer.writeIndex + count < buffer.buffer.length) :
    (buffer.moveWriteIndex count).readable =
      buffer.readable ++
        window buffer.buffer buffer.writeIndex (buffer.writeIndex + count) := by
  rw [moveWriteIndex_accepted (by omega) (by omega), ← Int.natCast_add, Int.toNat_natCast,
    adjustBuffer_readable (movedWrite_valid valid (by omega) (by omega))]
  exact window_append valid.readLeWrite (Nat.le_add_right _ _)

end MoveWriteIndex

section Receive

variable {buffer : TcpBuffer} {bytes : Bytes}

private theorem filled_valid (valid : buffer.Valid)
    (fits : buffer.writeIndex + bytes.length ≤ buffer.buffer.length) {moved : Nat}
    (above : buffer.writeIndex ≤ moved) (within : moved ≤ buffer.buffer.length) :
    ({ buffer with
        writeIndex := moved
        buffer := overwrite buffer.buffer buffer.writeIndex bytes } : TcpBuffer).Valid where
  readLeWrite := Nat.le_trans valid.readLeWrite above
  writeLeSize := by
    rw [overwrite_length fits]
    exact within
  sizeFitsInt := by
    rw [overwrite_length fits]
    exact valid.sizeFitsInt

private theorem receive_eq (fits : bytes.length < buffer.writeAble) :
    buffer.receive bytes = (buffer.store bytes).adjustBuffer := by
  rw [writeAble] at fits
  have inside : buffer.writeIndex + bytes.length ≤ buffer.buffer.length := by omega
  have accepted : ¬((buffer.writeIndex : Int) + bytes.length < 0 ∨
      (buffer.buffer.length : Int) ≤ buffer.writeIndex + bytes.length) := by omega
  have moved : ((buffer.writeIndex : Int) + bytes.length).toNat =
      buffer.writeIndex + bytes.length := by omega
  simp [receive, moveWriteIndex, store, overwrite_length inside, accepted, moved]

theorem store_valid (valid : buffer.Valid) (fits : bytes.length ≤ buffer.writeAble) :
    (buffer.store bytes).Valid := by
  have inside := valid.writeLeSize
  rw [writeAble] at fits
  exact filled_valid valid (by omega) (Nat.le_add_right _ _) (by omega)

theorem store_readable (valid : buffer.Valid) :
    (buffer.store bytes).readable = buffer.readable ++ bytes :=
  window_overwrite_append valid.readLeWrite valid.writeLeSize

/-- A read that leaves spare capacity is appended. -/
theorem receive_readable (spare : buffer.Spare) (fits : bytes.length < buffer.writeAble) :
    (buffer.receive bytes).readable = buffer.readable ++ bytes := by
  have stored := store_valid spare.toValid (Nat.le_of_lt fits)
  rw [receive_eq fits, adjustBuffer_readable stored, store_readable spare.toValid]

theorem receive_spare (spare : buffer.Spare) (fits : bytes.length < buffer.writeAble) :
    (buffer.receive bytes).Spare := by
  have stored := store_valid spare.toValid (Nat.le_of_lt fits)
  have inside := spare.writeLtSize
  rw [writeAble] at fits
  have size : (buffer.store bytes).buffer.length = buffer.buffer.length :=
    overwrite_length (by omega)
  have below : (buffer.store bytes).writeIndex < buffer.buffer.length := by
    simp only [store]
    omega
  rw [receive_eq fits]
  refine ⟨adjustBuffer_valid stored, ?_⟩
  rw [adjustBuffer_size stored, size]
  exact Nat.lt_of_le_of_lt (adjustBuffer_writeIndex_le _) below

/-- A read that fills the storage to its end does not move the write cursor. -/
theorem receive_full (spare : buffer.Spare) (full : bytes.length = buffer.writeAble) :
    buffer.receive bytes =
      { buffer with buffer := overwrite buffer.buffer buffer.writeIndex bytes } := by
  have inside := spare.writeLtSize
  rw [writeAble] at full
  have size : buffer.writeIndex + bytes.length ≤ buffer.buffer.length := by omega
  have refused : (buffer.writeIndex : Int) + bytes.length < 0 ∨
      (buffer.buffer.length : Int) ≤ buffer.writeIndex + bytes.length := by omega
  simp [receive, moveWriteIndex, overwrite_length size, refused]

theorem receive_full_spare (spare : buffer.Spare) (full : bytes.length = buffer.writeAble) :
    (buffer.receive bytes).Spare := by
  have inside := spare.writeLtSize
  have size : buffer.writeIndex + bytes.length ≤ buffer.buffer.length := by
    rw [full, writeAble]
    omega
  rw [receive_full spare full]
  refine ⟨filled_valid spare.toValid size (Nat.le_refl _) (Nat.le_of_lt inside), ?_⟩
  rw [overwrite_length size]
  exact inside

/-- All the bytes of such a read are lost. -/
theorem receive_full_readable (spare : buffer.Spare)
    (full : bytes.length = buffer.writeAble) :
    (buffer.receive bytes).readable = buffer.readable := by
  rw [receive_full spare full]
  exact window_overwrite_before (Nat.le_refl _) spare.writeLeSize

end Receive

section ResizeBuffer

variable {buffer : TcpBuffer} {newSize : Nat}

private theorem resizeBuffer_eq (enough : buffer.readAble ≤ newSize) :
    buffer.resizeBuffer newSize = buffer.copyToFront newSize buffer.readAble := by
  rw [resizeBuffer, Nat.min_eq_right enough]

theorem resizeBuffer_size (valid : buffer.Valid) (enough : buffer.readAble ≤ newSize) :
    (buffer.resizeBuffer newSize).buffer.length = newSize := by
  rw [resizeBuffer_eq enough, copyToFront_size valid (Nat.le_refl _) enough]

theorem resizeBuffer_valid (valid : buffer.Valid) (enough : buffer.readAble ≤ newSize)
    (fits : newSize < 2 ^ 31) : (buffer.resizeBuffer newSize).Valid := by
  rw [resizeBuffer_eq enough]
  exact copyToFront_valid valid (Nat.le_refl _) enough fits

/-- A storage that holds the readable bytes keeps them all. -/
theorem resizeBuffer_readable (valid : buffer.Valid) (enough : buffer.readAble ≤ newSize) :
    (buffer.resizeBuffer newSize).readable = buffer.readable := by
  rw [resizeBuffer_eq enough, copyToFront_readable valid (Nat.le_refl _),
    ← readable_length valid, List.take_length]

end ResizeBuffer

section WriteToBuffer

variable {buffer next : TcpBuffer} {bytes : Bytes}

private theorem resized (valid : buffer.Valid) {newSize : Nat}
    (larger : buffer.writeIndex + bytes.length ≤ newSize) (fits : newSize < 2 ^ 31) :
    (buffer.resizeBuffer newSize).Valid ∧
      (buffer.resizeBuffer newSize).readable = buffer.readable ∧
      bytes.length ≤ (buffer.resizeBuffer newSize).writeAble := by
  have enough : buffer.readAble ≤ newSize := by
    rw [readAble]
    omega
  refine ⟨resizeBuffer_valid valid enough fits, resizeBuffer_readable valid enough, ?_⟩
  have atFront : (buffer.resizeBuffer newSize).writeIndex = buffer.readAble := by
    rw [resizeBuffer_eq enough]
    rfl
  rw [writeAble, resizeBuffer_size valid enough, atFront, readAble]
  omega

theorem writeToBuffer_valid (valid : buffer.Valid)
    (written : buffer.writeToBuffer bytes = some next) : next.Valid := by
  rw [writeToBuffer] at written
  split at written
  · simp only [Option.ite_none_right_eq_some, Option.some.injEq] at written
    rcases written with ⟨fits, rfl⟩
    have grown := resized valid (show buffer.writeIndex + bytes.length ≤ _ by omega) fits
    exact store_valid grown.1 grown.2.2
  · cases written
    exact store_valid valid (by omega)

/-- Whatever is written is appended to the readable bytes. -/
theorem writeToBuffer_readable (valid : buffer.Valid)
    (written : buffer.writeToBuffer bytes = some next) :
    next.readable = buffer.readable ++ bytes := by
  rw [writeToBuffer] at written
  split at written
  · simp only [Option.ite_none_right_eq_some, Option.some.injEq] at written
    rcases written with ⟨fits, rfl⟩
    have grown := resized valid (show buffer.writeIndex + bytes.length ≤ _ by omega) fits
    rw [store_readable grown.1, grown.2.1]
  · cases written
    exact store_readable valid

end WriteToBuffer

section ReadFromBuffer

variable {buffer : TcpBuffer}

@[simp] theorem readFromBuffer_empty (empty : buffer.readAble = 0) (re : Bytes) (size : Nat) :
    buffer.readFromBuffer re size = (re, buffer) := by
  rw [readFromBuffer, if_pos empty]

/-- A buffer that is not empty gives its first `size` readable bytes and keeps
the others. -/
theorem readFromBuffer_spec (valid : buffer.Valid) (nonempty : buffer.readAble ≠ 0)
    (re : Bytes) (size : Nat) :
    (buffer.readFromBuffer re size).1 = buffer.readable.take size ∧
      (buffer.readFromBuffer re size).2.Valid ∧
      (buffer.readFromBuffer re size).2.readable = buffer.readable.drop size := by
  have within : buffer.readIndex + min size buffer.readAble ≤ buffer.writeIndex := by
    have ordered := valid.readLeWrite
    rw [readAble]
    omega
  have readSize : (if size < buffer.readAble then size else buffer.readAble) =
      min size buffer.readAble := by
    split <;> omega
  have moved := movedRead_valid valid within
  simp only [readFromBuffer, if_neg nonempty, readSize]
  refine ⟨?_, adjustBuffer_valid moved, ?_⟩
  · rw [readable, window, List.take_take]
    rfl
  · have length := readable_length valid
    rw [adjustBuffer_readable moved]
    change window buffer.buffer (buffer.readIndex + min size buffer.readAble)
      buffer.writeIndex = buffer.readable.drop size
    rw [window_drop, ← length]
    change buffer.readable.drop (min size buffer.readable.length) = _
    rcases Nat.le_total size buffer.readable.length with fewer | more
    · rw [Nat.min_eq_left fewer]
    · rw [Nat.min_eq_right more, List.drop_length, List.drop_eq_nil_of_le more]

end ReadFromBuffer

end TcpBuffer

end NetRpc
