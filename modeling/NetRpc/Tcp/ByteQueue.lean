import NetRpc.Foundation.Queue
import NetRpc.Tcp.Buffer

/-! # The copying interface of TcpBuffer

Growth and compaction move the readable bytes about in the storage. Seen from
outside, a buffer that is only used through `writeToBuffer`, `readFromBuffer`,
`adjustBuffer` and `resizeBuffer` is a queue of bytes.
-/

namespace NetRpc.TcpBuffer

/-- A call with what it gives back. -/
inductive Call
  | writeToBuffer (bytes : Bytes)
  /-- `readFromBuffer` finds bytes, and `re` becomes `returned`. -/
  | readFromBuffer (re : Bytes) (size : Nat) (returned : Bytes)
  /-- `readFromBuffer` finds nothing. -/
  | readEmpty (re : Bytes) (size : Nat)
  | adjustBuffer
  | resizeBuffer (newSize : Nat)
deriving DecidableEq

def perform (buffer : TcpBuffer) : Call → Option TcpBuffer
  | .writeToBuffer bytes => buffer.writeToBuffer bytes
  | .readFromBuffer re size returned =>
      if 0 < size ∧ buffer.readAble ≠ 0 ∧ (buffer.readFromBuffer re size).1 = returned then
        some (buffer.readFromBuffer re size).2
      else
        none
  | .readEmpty re size =>
      if 0 < size ∧ buffer.readAble = 0 then
        some (buffer.readFromBuffer re size).2
      else
        none
  | .adjustBuffer => some buffer.adjustBuffer
  | .resizeBuffer newSize =>
      if buffer.readAble ≤ newSize ∧ newSize < 2 ^ 31 then
        some (buffer.resizeBuffer newSize)
      else
        none

/-- Runs of a buffer that is made with some initial size. -/
def copying : Transition.System TcpBuffer Call where
  Initial buffer := ∃ size, size < 2 ^ 31 ∧ buffer = .new size
  Step current call next := current.perform call = some next

/-- What a call does to the queue of bytes. -/
def Call.operations : Call → List (Queue.Operation Byte)
  | .writeToBuffer bytes => [.put bytes]
  | .readFromBuffer _ size returned => [.take size returned]
  | .readEmpty _ _ | .adjustBuffer | .resizeBuffer _ => []

/-- All bytes given to `writeToBuffer`. -/
def written (calls : List Call) : Bytes :=
  (calls.flatMap Call.operations).flatMap Queue.Operation.puts

/-- All bytes obtained from `readFromBuffer`. -/
def returned (calls : List Call) : Bytes :=
  (calls.flatMap Call.operations).flatMap Queue.Operation.takes

theorem perform_valid {current next : TcpBuffer} {call : Call} (valid : current.Valid)
    (performed : current.perform call = some next) : next.Valid := by
  cases call with
  | writeToBuffer bytes => exact writeToBuffer_valid valid performed
  | readFromBuffer re size returned =>
      simp only [perform, Option.ite_none_right_eq_some, Option.some.injEq] at performed
      rcases performed with ⟨⟨_, nonempty, _⟩, rfl⟩
      exact (readFromBuffer_spec valid nonempty re size).2.1
  | readEmpty re size =>
      simp only [perform, Option.ite_none_right_eq_some, Option.some.injEq] at performed
      rcases performed with ⟨⟨_, empty⟩, rfl⟩
      rw [readFromBuffer_empty empty]
      exact valid
  | adjustBuffer =>
      cases performed
      exact adjustBuffer_valid valid
  | resizeBuffer newSize =>
      simp only [perform, Option.ite_none_right_eq_some, Option.some.injEq] at performed
      rcases performed with ⟨⟨enough, fits⟩, rfl⟩
      exact resizeBuffer_valid valid enough fits

/-- Every call does to the readable bytes what it does to the queue. -/
theorem perform_simulates {current next : TcpBuffer} {call : Call} (valid : current.Valid)
    (performed : current.perform call = some next) :
    Queue.fifo.Run current.readable call.operations next.readable := by
  cases call with
  | writeToBuffer bytes =>
      rw [writeToBuffer_readable valid performed]
      exact Queue.put _ _
  | readFromBuffer re size returned =>
      simp only [perform, Option.ite_none_right_eq_some, Option.some.injEq] at performed
      rcases performed with ⟨⟨_, nonempty, obtained⟩, rfl⟩
      rcases readFromBuffer_spec valid nonempty re size with ⟨first, _, rest⟩
      rw [rest, ← obtained, first]
      exact Queue.take _ _
  | readEmpty re size =>
      simp only [perform, Option.ite_none_right_eq_some, Option.some.injEq] at performed
      rcases performed with ⟨⟨_, empty⟩, rfl⟩
      rw [readFromBuffer_empty empty]
      exact .nil _
  | adjustBuffer =>
      cases performed
      rw [adjustBuffer_readable valid]
      exact .nil _
  | resizeBuffer newSize =>
      simp only [perform, Option.ite_none_right_eq_some, Option.some.injEq] at performed
      rcases performed with ⟨⟨enough, _⟩, rfl⟩
      rw [resizeBuffer_readable valid enough]
      exact .nil _

/-- A buffer that starts without any storage grows, is read in pieces, compacts
and grows again. -/
def mixedCalls : List Call :=
  [.readEmpty [] 1, .writeToBuffer [1, 2, 3, 4, 5], .readFromBuffer [] 1 [1],
    .writeToBuffer [6, 7, 8], .adjustBuffer, .readFromBuffer [9] 3 [2, 3, 4],
    .resizeBuffer 4, .readFromBuffer [] 7 [5, 6, 7, 8]]

end NetRpc.TcpBuffer
