import NetRpc.Coder.Protocol
import NetRpc.Foundation.Loop
import NetRpc.Foundation.Traced

/-! # TinyPBCoder::decode

Every access to the copied storage, to the local arrays and every `int`
addition that could overflow is attempted through `Traced.touch`, so that an
execution with undefined behaviour stops with the access that caused it.
-/

namespace NetRpc

/-- What the decoder attempts on its copy `tmp` of the storage. -/
inductive Access
  /-- Read `length` bytes of `tmp` from `index` on. -/
  | read (index length : Int)
  /-- Compute a value in `int` arithmetic. -/
  | arith (value : Int)
  /-- `memcpy` of `length` bytes of `tmp` from `index` on into a local array. -/
  | copy (capacity : Nat) (index length : Int)
  /-- Find the terminator at `position` of a local array. -/
  | terminator (capacity position : Nat)
  /-- Construct a `std::string` of `length` bytes of `tmp` from `index` on. -/
  | text (index length : Int)
deriving DecidableEq

def InIntRange (value : Int) : Prop := -2 ^ 31 ≤ value ∧ value < 2 ^ 31

instance : DecidablePred InIntRange := fun _ => inferInstanceAs (Decidable (_ ∧ _))

/-- The part of the storage that accesses may touch, and how many bytes at the
end of a local array a `memcpy` must leave alone. -/
structure Region where
  lower : Nat
  upper : Nat
  slack : Nat

namespace Access

def Inside (region : Region) : Access → Prop
  | .read index length =>
      0 ≤ length ∧ region.lower ≤ index ∧ index + length ≤ region.upper
  | .arith value => InIntRange value
  | .copy capacity index length =>
      0 ≤ length ∧ length + region.slack ≤ capacity ∧
        region.lower ≤ index ∧ index + length ≤ region.upper
  | .terminator capacity position => position < capacity
  | .text index length =>
      0 ≤ length ∧ region.lower ≤ index ∧ index + length ≤ region.upper

instance (region : Region) : DecidablePred (Inside region) := fun access => by
  cases access <;> unfold Inside <;> infer_instance

end Access

def storageRegion (tmp : Bytes) : Region := ⟨0, tmp.length, 0⟩

/-- Any other access is undefined behaviour. -/
abbrev Legal (tmp : Bytes) : Access → Prop := Access.Inside (storageRegion tmp)

namespace TinyPBCoder

open TinyPBProtocol Traced

/-- The candidate frame that the scan has accepted. -/
structure Candidate where
  startIndex : Nat
  endIndex : Int
  pkLen : Int32
deriving DecidableEq

/-- The `int32_t` that stands at `index`. -/
def int32At (tmp : Bytes) (index : Int) : Int32 :=
  getInt32FromNetByte (tmp.drop index.toNat)

def readChar (tmp : Bytes) (index : Int) : Traced (Legal tmp) Byte := do
  touch (.read index 1)
  pure (tmp.getD index.toNat 0)

def readInt32 (tmp : Bytes) (index : Int) : Traced (Legal tmp) Int32 := do
  touch (.read index 4)
  pure (int32At tmp index)

def addInt (tmp : Bytes) (left right : Int) : Traced (Legal tmp) Int := do
  touch (.arith (left + right))
  pure (left + right)

/-- The characters in front of the first NUL. -/
def cString (array : Bytes) : Bytes :=
  array.takeWhile (· != 0)

/-- The zeroed local array after `length` bytes have been copied into it. -/
def copied (capacity : Nat) (tmp : Bytes) (index length : Int) : Bytes :=
  (tmp.drop index.toNat).take length.toNat ++
    List.replicate (capacity - length.toNat) 0

/-- `memcpy` into a zeroed local array, then `std::string(array)`. -/
def copyString (capacity : Nat) (tmp : Bytes) (index length : Int) :
    Traced (Legal tmp) Bytes := do
  touch (.copy capacity index length)
  let text := cString (copied capacity tmp index length)
  touch (.terminator capacity text.length)
  pure text

/-- The conversion of a `size_t` back to `int`. -/
def toInt (value : Int) : Int := value.bmod (2 ^ 32)

/-- Add a `sizeof`, which makes the addition one of `size_t`, and store the
result in an `int`. -/
def addSize (tmp : Bytes) (index : Int) (size : Nat) : Traced (Legal tmp) Int :=
  pure (toInt (index + size))

/-- One pass of the scan's `for` body at index `i`. It yields a candidate where
the source leaves the loop. -/
def probe (tmp : Bytes) (writeIndex i : Nat) : Traced (Legal tmp) (Option Candidate) := do
  let marker ← readChar tmp i
  if marker = pbStart then
    if i + 1 < writeIndex then
      let pkLen ← readInt32 tmp (i + 1)
      let next ← addInt tmp i pkLen.toInt
      let j ← addInt tmp next (-1)
      if (writeIndex : Int) ≤ j then
        pure none
      else
        let last ← readChar tmp j
        if last = pbEnd then
          pure (some ⟨i, j, pkLen⟩)
        else
          pure none
    else
      pure none
  else
    pure none

/-- The scan over the `remaining` indices from `i` on. -/
def scan (tmp : Bytes) (writeIndex : Nat) : Nat → Nat → Traced (Legal tmp) (Option Candidate)
  | _, 0 => pure none
  | i, remaining + 1 => do
      match ← probe tmp writeIndex i with
      | some candidate => pure (some candidate)
      | none => scan tmp writeIndex (i + 1) remaining

/-- A string field with its length in front: the length, the text and the
index behind them. -/
structure Field where
  length : Int32
  text : Bytes
  next : Int

def readField (capacity : Nat) (tmp : Bytes) (lenIndex : Int) : Traced (Legal tmp) Field := do
  let length ← readInt32 tmp lenIndex
  let index ← addSize tmp lenIndex 4
  let text ← copyString capacity tmp index length.toInt
  let next ← addInt tmp index length.toInt
  pure { length, text, next }

/-- `pb_data` takes what the packet length leaves, and is not checked against
the end marker. -/
def readPbData (tmp : Bytes) (pkLen : Int32) (msgId methodName errInfo : Field) :
    Traced (Legal tmp) Bytes := do
  let length ← addInt tmp pkLen.toInt
    (-methodName.length.toInt - msgId.length.toInt - errInfo.length.toInt - 2 - 24)
  touch (.text errInfo.next length)
  pure ((tmp.drop errInfo.next.toNat).take length.toNat)

/-- Parse the fields of an accepted candidate. The result is `none` where the
source logs a parse error and continues with the next candidate. -/
def parse (tmp : Bytes) (candidate : Candidate) : Traced (Legal tmp) (Option TinyPBProtocol) := do
  let msgIdLenIndex ← addSize tmp candidate.startIndex (1 + 4)
  if candidate.endIndex ≤ msgIdLenIndex then
    pure none
  else
    let msgId ← readField 100 tmp msgIdLenIndex
    if candidate.endIndex ≤ msgId.next then
      pure none
    else
      let methodName ← readField 512 tmp msgId.next
      if candidate.endIndex ≤ methodName.next then
        pure none
      else
        let errCode ← readInt32 tmp methodName.next
        let errorInfoLenIndex ← addSize tmp methodName.next 4
        if candidate.endIndex ≤ errorInfoLenIndex then
          pure none
        else
          let errInfo ← readField 512 tmp errorInfoLenIndex
          let pbData ← readPbData tmp candidate.pkLen msgId methodName errInfo
          pure (some {
            pkLen := candidate.pkLen
            msgIdLen := msgId.length
            msgId := msgId.text
            methodNameLen := methodName.length
            methodName := methodName.text
            errCode := errCode
            errInfoLen := errInfo.length
            errInfo := errInfo.text
            pbData := pbData
            parseSuccess := true })

/-- The candidate is consumed before its fields are parsed. -/
def takeCandidate (buffer : TcpBuffer) (candidate : Candidate) :
    Traced (Legal buffer.buffer) (Loop.Pass TcpBuffer TinyPBProtocol) := do
  let moved := buffer.moveReadIndex (candidate.endIndex - candidate.startIndex + 1)
  let message ← parse buffer.buffer candidate
  pure (.again moved message)

/-- One pass of the outer `while (1)`. -/
def iteration (buffer : TcpBuffer) :
    Traced (Legal buffer.buffer) (Loop.Pass TcpBuffer TinyPBProtocol) := do
  match ← scan buffer.buffer buffer.writeIndex buffer.readIndex
      (buffer.writeIndex - buffer.readIndex) with
  | none => pure .leave
  | some candidate => takeCandidate buffer candidate

def body : Loop.Body TcpBuffer TinyPBProtocol Access := fun buffer =>
  (iteration buffer).outcome

/-- Decode for at most `fuel` passes of the outer loop, appending the messages
to `outMessages`. -/
def decode (fuel : Nat) (outMessages : List TinyPBProtocol) (buffer : TcpBuffer) :
    Option (Except Access (List TinyPBProtocol × TcpBuffer)) :=
  Loop.run body fuel outMessages buffer

end TinyPBCoder

end NetRpc
