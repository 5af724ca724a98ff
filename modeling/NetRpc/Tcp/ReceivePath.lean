import Mathlib.Data.List.Flatten
import NetRpc.Coder.Pass
import NetRpc.Foundation.Transition

/-! # TcpConnection::onRead

The read loop takes what the kernel has for the descriptor and puts it behind
the write cursor of the in-buffer. The results of the successive `read()` calls
are given as a list.
-/

namespace NetRpc

inductive ReadResult
  /-- `read()` returned a positive count. -/
  | data (bytes : Bytes)
  /-- `read()` returned zero. -/
  | eof
  /-- `read()` returned -1 with `EAGAIN`. -/
  | again
  /-- `read()` returned -1 with another `errno`. -/
  | failed
deriving DecidableEq

def ReadResult.bytes : ReadResult → Bytes
  | .data bytes => bytes
  | _ => []

/-- How the loop was left: with `is_read_all` or with `is_close`. -/
inductive ReadEnd
  | readAll
  | closed
deriving DecidableEq

namespace TcpConnection

/-- Grow the in-buffer when it has no capacity left. The result is `none` when
the new size leaves the range of `int`. -/
def makeRoom (inBuffer : TcpBuffer) : Option TcpBuffer :=
  if inBuffer.writeAble = 0 then
    let newSize := 2 * inBuffer.buffer.length
    if newSize < 2 ^ 31 then some (inBuffer.resizeBuffer newSize) else none
  else
    some inBuffer

/-- The loop of `onRead`. The result is `none` when it asks for more results
than there are. -/
def readLoop : TcpBuffer → List ReadResult → Option (ReadEnd × TcpBuffer)
  | _, [] => none
  | inBuffer, result :: later => do
      let inBuffer ← makeRoom inBuffer
      match result with
      | .data bytes =>
          if bytes.length = inBuffer.writeAble then
            readLoop (inBuffer.receive bytes) later
          else
            some (.readAll, inBuffer.receive bytes)
      | .eof => some (.closed, inBuffer)
      | .again => some (.readAll, inBuffer)
      | .failed => readLoop inBuffer later

/-- All bytes that the reads returned, in order. -/
def received (results : List ReadResult) : Bytes :=
  results.flatMap ReadResult.bytes

/-- The results are those of one loop: each read returns at most what was asked
for, and the last result is the one that ends the loop. -/
def Feasible : TcpBuffer → List ReadResult → Prop
  | _, [] => False
  | inBuffer, result :: later => ∃ roomy, makeRoom inBuffer = some roomy ∧
      match result with
      | .data bytes => 0 < bytes.length ∧ bytes.length ≤ roomy.writeAble ∧
          if bytes.length = roomy.writeAble then
            Feasible (roomy.receive bytes) later
          else
            later = []
      | .eof => later = []
      | .again => later = []
      | .failed => Feasible roomy later

/-! ## The states of the in-buffer -/

inductive Inbound
  | onRead (results : List ReadResult)
  | decode

inductive InboundStep : TcpBuffer → Inbound → TcpBuffer → Prop
  | onRead {inBuffer next : TcpBuffer} {results : List ReadResult} {ending : ReadEnd} :
      Feasible inBuffer results → readLoop inBuffer results = some (ending, next) →
      InboundStep inBuffer (.onRead results) next
  | decode {inBuffer next : TcpBuffer} {items : List TinyPBProtocol} :
      Loop.Returns TinyPBCoder.body inBuffer items next →
      InboundStep inBuffer .decode next

/-- A connection is made with an in-buffer of `size` bytes. -/
def inbound (size : Nat) : Transition.System TcpBuffer Inbound where
  Initial inBuffer := inBuffer = TcpBuffer.new size
  Step := InboundStep

theorem makeRoom_spare {inBuffer : TcpBuffer} (spare : inBuffer.Spare) :
    makeRoom inBuffer = some inBuffer := by
  have room : inBuffer.writeAble ≠ 0 := by
    have below := spare.writeLtSize
    rw [TcpBuffer.writeAble]
    omega
  rw [makeRoom, if_neg room]

theorem receive_spare_of_le {inBuffer : TcpBuffer} (spare : inBuffer.Spare) {bytes : Bytes}
    (fits : bytes.length ≤ inBuffer.writeAble) : (inBuffer.receive bytes).Spare := by
  rcases Nat.lt_or_eq_of_le fits with short | full
  · exact TcpBuffer.receive_spare spare short
  · exact TcpBuffer.receive_full_spare spare full

/-- The bytes of the reads that did not fill `room`. -/
def kept (room : Nat) (results : List ReadResult) : Bytes :=
  (results.filter fun result => result.bytes.length < room).flatMap ReadResult.bytes

theorem kept_cons_short {room : Nat} {result : ReadResult}
    (short : result.bytes.length < room) (later : List ReadResult) :
    kept room (result :: later) = result.bytes ++ kept room later := by
  simp [kept, short]

theorem kept_cons_full {room : Nat} {result : ReadResult}
    (full : room ≤ result.bytes.length) (later : List ReadResult) :
    kept room (result :: later) = kept room later := by
  simp [kept, Nat.not_lt.mpr full]

theorem kept_cons_silent {room : Nat} {result : ReadResult} (silent : result.bytes = [])
    (later : List ReadResult) : kept room (result :: later) = kept room later := by
  rcases Nat.lt_or_ge result.bytes.length room with short | full
  · rw [kept_cons_short short, silent, List.nil_append]
  · exact kept_cons_full full later

theorem receive_full_writeAble {inBuffer : TcpBuffer} (spare : inBuffer.Spare)
    {bytes : Bytes} (full : bytes.length = inBuffer.writeAble) :
    (inBuffer.receive bytes).writeAble = inBuffer.writeAble := by
  have below := spare.writeLtSize
  have inside : inBuffer.writeIndex + bytes.length ≤ inBuffer.buffer.length := by
    rw [full, TcpBuffer.writeAble]
    omega
  rw [TcpBuffer.receive_full spare full, TcpBuffer.writeAble, overwrite_length inside]
  rfl

/-- The loop ends, and the bytes of exactly the reads that leave capacity free
are in the buffer. -/
theorem readLoop_outcome : ∀ {results : List ReadResult} {inBuffer : TcpBuffer},
    inBuffer.Spare → Feasible inBuffer results →
    ∃ ending final, readLoop inBuffer results = some (ending, final) ∧ final.Spare ∧
      final.readable = inBuffer.readable ++ kept inBuffer.writeAble results
  | [], _, _, feasible => feasible.elim
  | result :: later, inBuffer, spare, feasible => by
      rcases feasible with ⟨roomy, enlarged, rest⟩
      have same := makeRoom_spare spare
      rw [same] at enlarged
      cases enlarged
      cases result with
      | data bytes =>
          rcases rest with ⟨_, fits, rest⟩
          have nextSpare := receive_spare_of_le spare fits
          by_cases full : bytes.length = inBuffer.writeAble
          · rw [if_pos full] at rest
            rcases readLoop_outcome nextSpare rest with
              ⟨ending, final, ran, finalSpare, readable⟩
            refine ⟨ending, final, ?_, finalSpare, ?_⟩
            · simp [readLoop, same, full, ran]
            · rw [readable, TcpBuffer.receive_full_readable spare full,
                receive_full_writeAble spare full, kept_cons_full (Nat.le_of_eq full.symm)]
          · rw [if_neg full] at rest
            have short : bytes.length < inBuffer.writeAble := by omega
            refine ⟨.readAll, inBuffer.receive bytes, ?_, nextSpare, ?_⟩
            · simp [readLoop, same, full]
            · rw [TcpBuffer.receive_readable spare short, rest, kept_cons_short short]
              exact congrArg _ (List.append_nil bytes).symm
      | eof =>
          have last : later = [] := rest
          refine ⟨.closed, inBuffer, by simp [readLoop, same], spare, ?_⟩
          rw [last, kept_cons_silent rfl]
          exact (List.append_nil _).symm
      | again =>
          have last : later = [] := rest
          refine ⟨.readAll, inBuffer, by simp [readLoop, same], spare, ?_⟩
          rw [last, kept_cons_silent rfl]
          exact (List.append_nil _).symm
      | failed =>
          rcases readLoop_outcome spare rest with ⟨ending, final, ran, finalSpare, readable⟩
          refine ⟨ending, final, by simp [readLoop, same, ran], finalSpare, ?_⟩
          rw [readable, kept_cons_silent rfl]

/-- In every reachable state the write cursor is in front of the end of the
storage. -/
theorem inbound_spare {size : Nat} (positive : 0 < size) (fits : size < 2 ^ 31)
    {inBuffer : TcpBuffer} (reachable : (inbound size).Reachable inBuffer) :
    inBuffer.Spare := by
  apply reachable.invariant TcpBuffer.Spare
  · intro initial isInitial
    rw [isInitial]
    exact TcpBuffer.new_spare positive fits
  · intro current label next spare step
    cases step with
    | onRead feasible ran =>
        rcases readLoop_outcome spare feasible with ⟨_, final, ranToo, finalSpare, _⟩
        rw [ran] at ranToo
        cases ranToo
        exact finalSpare
    | decode returns => exact TinyPBCoder.reaches_spare spare returns.reaches

/-! ## Lossless reads -/

theorem kept_length_le (room : Nat) (results : List ReadResult) :
    (kept room results).length ≤ (received results).length :=
  (List.Sublist.flatMap List.filter_sublist ReadResult.bytes).length_le

/-- Nothing is lost exactly when no read fills the room. -/
theorem kept_eq_received_iff {room : Nat} (positive : 0 < room) :
    ∀ {results : List ReadResult}, kept room results = received results ↔
      ∀ result ∈ results, result.bytes.length < room
  | [] => by simp [kept, received]
  | result :: later => by
      have rest := @kept_eq_received_iff _ positive later
      rw [List.forall_mem_cons, ← rest]
      have split : received (result :: later) = result.bytes ++ received later :=
        List.flatMap_cons
      rw [split]
      rcases Nat.lt_or_ge result.bytes.length room with short | full
      · rw [kept_cons_short short, List.append_cancel_left_eq, and_iff_right short]
      · rw [kept_cons_full full]
        refine iff_of_false (fun equal => ?_) fun both => Nat.not_lt.mpr full both.1
        have atMost := kept_length_le room later
        rw [equal, List.length_append] at atMost
        omega

/-- The read loop appends exactly the bytes that the reads returned if and only
if none of the reads returned as many bytes as the storage had room for. -/
theorem readLoop_lossless_iff {size : Nat} (positive : 0 < size) (fits : size < 2 ^ 31)
    {inBuffer : TcpBuffer} (reachable : (inbound size).Reachable inBuffer)
    {results : List ReadResult} (feasible : Feasible inBuffer results) :
    (∃ ending final, readLoop inBuffer results = some (ending, final) ∧
      final.readable = inBuffer.readable ++ received results) ↔
    ∀ result ∈ results, result.bytes.length < inBuffer.writeAble := by
  have spare := inbound_spare positive fits reachable
  have room : 0 < inBuffer.writeAble := by
    have below := spare.writeLtSize
    rw [TcpBuffer.writeAble]
    omega
  rcases readLoop_outcome spare feasible with ⟨ending, final, ran, _, readable⟩
  rw [← kept_eq_received_iff room]
  constructor
  · intro lossless
    rcases lossless with ⟨_, _, ranToo, readableToo⟩
    rw [ran] at ranToo
    cases ranToo
    rw [readable] at readableToo
    exact List.append_cancel_left readableToo
  · intro equal
    exact ⟨ending, final, ran, equal ▸ readable⟩

/-- One byte of the storage stays free. -/
theorem readLoop_lossless_short :
    ∃ ending final,
      readLoop (TcpBuffer.new 128) [.data (List.replicate 127 7)] = some (ending, final) ∧
      final.readable = (TcpBuffer.new 128).readable ++
        received [.data (List.replicate 127 7)] := by
  have short : (List.replicate 127 (7 : Byte)).length ≠ (TcpBuffer.new 128).writeAble := by
    decide +kernel
  have feasible : Feasible (TcpBuffer.new 128) [.data (List.replicate 127 7)] := by
    refine ⟨TcpBuffer.new 128, by decide +kernel, by decide +kernel, by decide +kernel, ?_⟩
    rw [if_neg short]
  exact (readLoop_lossless_iff (show 0 < 128 by decide) (by decide +kernel)
    ⟨_, [], rfl, .nil _⟩ feasible).mpr (by decide +kernel)

/-- A read of 128 bytes into a fresh in-buffer of that size disappears. -/
theorem readLoop_loses_full :
    (inbound 128).Reachable (TcpBuffer.new 128) ∧
      Feasible (TcpBuffer.new 128) [.data (List.replicate 128 7), .again] ∧
      ¬∃ ending final,
        readLoop (TcpBuffer.new 128) [.data (List.replicate 128 7), .again] =
          some (ending, final) ∧
        final.readable = (TcpBuffer.new 128).readable ++
          received [.data (List.replicate 128 7), .again] := by
  have full : (List.replicate 128 (7 : Byte)).length = (TcpBuffer.new 128).writeAble := by
    decide +kernel
  refine ⟨⟨_, [], rfl, .nil _⟩, ?_, ?_⟩
  · refine ⟨TcpBuffer.new 128, by decide +kernel, by decide +kernel, by decide +kernel, ?_⟩
    rw [if_pos full]
    exact ⟨(TcpBuffer.new 128).receive (List.replicate 128 7), by decide +kernel, rfl⟩
  · intro lossless
    rcases lossless with ⟨ending, final, ran, readable⟩
    have lost : (readLoop (TcpBuffer.new 128)
        [.data (List.replicate 128 7), .again]).map (·.2.readable) = some [] := by
      decide +kernel
    rw [ran] at lost
    cases readable.symm.trans (Option.some.inj lost)

end TcpConnection

end NetRpc
