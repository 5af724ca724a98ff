import NetRpc.Common.NetByte

/-! # MurmurHash -/

namespace NetRpc.Murmur

def rotateLeft (word count : UInt32) : UInt32 :=
  (word <<< count) ||| (word >>> (32 - count))

/-- A `uint32_t` of the text, whose first byte is the least significant. -/
def block (first second third fourth : Byte) : UInt32 :=
  first.toUInt32 ||| second.toUInt32 <<< 8 ||| third.toUInt32 <<< 16 |||
    fourth.toUInt32 <<< 24

/-- What a block becomes before it enters the hash. -/
def scramble (k : UInt32) : UInt32 :=
  rotateLeft (k * 0xcc9e2d51) 15 * 0x1b873593

/-- The loop over the whole blocks, and the bytes behind them. -/
def blocks (hash : UInt32) : Bytes → UInt32 × Bytes
  | first :: second :: third :: fourth :: rest =>
      blocks (rotateLeft (hash ^^^ scramble (block first second third fourth)) 13 * 5
        + 0xe6546b64) rest
  | tail => (hash, tail)

def finish (hash : UInt32) : UInt32 :=
  let hash := (hash ^^^ hash >>> 16) * 0x85ebca6b
  let hash := (hash ^^^ hash >>> 13) * 0xc2b2ae35
  hash ^^^ hash >>> 16

/-- `murmur3_32` of a whole text shorter than 2³² bytes. -/
def murmur3_32 (key : Bytes) (seed : UInt32 := 17) : UInt32 :=
  let (hash, tail) := blocks seed key
  let hash :=
    match tail with
    | [first] => hash ^^^ scramble (block first 0 0 0)
    | [first, second] => hash ^^^ scramble (block first second 0 0)
    | [first, second, third] => hash ^^^ scramble (block first second third 0)
    | _ => hash
  finish (hash ^^^ UInt32.ofNat key.length)

example : murmur3_32 (ascii "SHARD-18862-NODE-0") = 2629005198 := by decide

end NetRpc.Murmur
