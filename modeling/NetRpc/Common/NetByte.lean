import Mathlib.Algebra.Group.Int.Defs
import Mathlib.Algebra.Group.Nat.Defs

/-! # Byte strings and network byte order

`std::string` values and buffer contents are lists of bytes. Integers cross
the wire most significant byte first.
-/

namespace NetRpc

abbrev Byte := UInt8

abbrev Bytes := List Byte

/-- The bytes of an ASCII literal of the source. -/
def ascii (text : String) : Bytes :=
  text.toList.map fun letter => UInt8.ofNat letter.toNat

/-- The four bytes that `memcpy` finds in the value of `htonl(value)`. -/
def htonl (value : Int32) : Bytes :=
  let word := value.toUInt32.toNat
  [UInt8.ofNat (word / 2 ^ 24), UInt8.ofNat (word / 2 ^ 16),
    UInt8.ofNat (word / 2 ^ 8), UInt8.ofNat word]

/-- Read an `int32_t` from the four bytes at the front. A shorter list only
arises from an access that the callers reject before they use the value. -/
def getInt32FromNetByte : Bytes → Int32
  | first :: second :: third :: fourth :: _ =>
      (UInt32.ofNat (first.toNat * 2 ^ 24 + second.toNat * 2 ^ 16 +
        third.toNat * 2 ^ 8 + fourth.toNat)).toInt32
  | _ => 0

example : getInt32FromNetByte (htonl (-2)) = -2 := by decide

@[simp] theorem htonl_length (value : Int32) : (htonl value).length = 4 := rfl

theorem getInt32FromNetByte_htonl_append (value : Int32) (rest : Bytes) :
    getInt32FromNetByte (htonl value ++ rest) = value := by
  have bounded : value.toUInt32.toNat < 2 ^ 32 := value.toUInt32.toNat_lt
  have reassembled :
      value.toUInt32.toNat / 2 ^ 24 % 2 ^ 8 * 2 ^ 24 +
        value.toUInt32.toNat / 2 ^ 16 % 2 ^ 8 * 2 ^ 16 +
        value.toUInt32.toNat / 2 ^ 8 % 2 ^ 8 * 2 ^ 8 +
        value.toUInt32.toNat % 2 ^ 8 = value.toUInt32.toNat := by
    omega
  simp only [htonl, List.cons_append, List.nil_append, getInt32FromNetByte,
    UInt8.toNat_ofNat', reassembled, UInt32.ofNat_toNat, Int32.toInt32_toUInt32]

/-- Bytes behind the first four do not matter. -/
theorem getInt32FromNetByte_append {bytes : Bytes} (enough : 4 ≤ bytes.length) (rest : Bytes) :
    getInt32FromNetByte (bytes ++ rest) = getInt32FromNetByte bytes := by
  match bytes with
  | _ :: _ :: _ :: _ :: _ => rfl

/-- Every four bytes are the network order of the value read from them. -/
theorem htonl_getInt32FromNetByte {bytes : Bytes} (enough : 4 ≤ bytes.length) :
    htonl (getInt32FromNetByte bytes) = bytes.take 4 := by
  match bytes with
  | first :: second :: third :: fourth :: rest =>
      have firstByte := first.toNat_lt
      have secondByte := second.toNat_lt
      have thirdByte := third.toNat_lt
      have fourthByte := fourth.toNat_lt
      have word : (first.toNat * 2 ^ 24 + second.toNat * 2 ^ 16 + third.toNat * 2 ^ 8 +
          fourth.toNat) % 2 ^ 32 = first.toNat * 2 ^ 24 + second.toNat * 2 ^ 16 +
            third.toNat * 2 ^ 8 + fourth.toNat := Nat.mod_eq_of_lt (by omega)
      have digit : ∀ (byte : Byte) {number : Nat}, number % 2 ^ 8 = byte.toNat →
          UInt8.ofNat number = byte := by
        intro byte number same
        apply UInt8.toNat_inj.mp
        rw [UInt8.toNat_ofNat', same]
      simp only [getInt32FromNetByte, htonl, UInt32.toUInt32_toInt32, UInt32.toNat_ofNat',
        word, List.take_succ_cons, List.take_zero]
      rw [digit first (by omega), digit second (by omega), digit third (by omega),
        digit fourth (by omega)]

end NetRpc
