import NetRpc.Common.NetByte

/-! # MD5

The state of an `MD5` object is the byte stream `data` and four words. Words
are read from the stream, and written to the digest, least significant byte
first.
-/

namespace NetRpc.MD5

structure State where
  a : UInt32
  b : UInt32
  c : UInt32
  d : UInt32
deriving DecidableEq

def T : List UInt32 := [
  0xD76AA478, 0xE8C7B756, 0x242070DB, 0xC1BDCEEE, 0xF57C0FAF, 0x4787C62A, 0xA8304613, 0xFD469501,
  0x698098D8, 0x8B44F7AF, 0xFFFF5BB1, 0x895CD7BE, 0x6B901122, 0xFD987193, 0xA679438E, 0x49B40821,
  0xF61E2562, 0xC040B340, 0x265E5A51, 0xE9B6C7AA, 0xD62F105D, 0x02441453, 0xD8A1E681, 0xE7D3FBC8,
  0x21E1CDE6, 0xC33707D6, 0xF4D50D87, 0x455A14ED, 0xA9E3E905, 0xFCEFA3F8, 0x676F02D9, 0x8D2A4C8A,
  0xFFFA3942, 0x8771F681, 0x6D9D6122, 0xFDE5380C, 0xA4BEEA44, 0x4BDECFA9, 0xF6BB4B60, 0xBEBFBC70,
  0x289B7EC6, 0xEAA127FA, 0xD4EF3085, 0x04881D05, 0xD9D4D039, 0xE6DB99E5, 0x1FA27CF8, 0xC4AC5665,
  0xF4292244, 0x432AFF97, 0xAB9423A7, 0xFC93A039, 0x655B59C3, 0x8F0CCC92, 0xFFEFF47D, 0x85845DD1,
  0x6FA87E4F, 0xFE2CE6E0, 0xA3014314, 0x4E0811A1, 0xF7537E82, 0xBD3AF235, 0x2AD7D2BB, 0xEB86D391]

def S : List UInt32 := [
  7, 12, 17, 22, 7, 12, 17, 22, 7, 12, 17, 22, 7, 12, 17, 22,
  5, 9, 14, 20, 5, 9, 14, 20, 5, 9, 14, 20, 5, 9, 14, 20,
  4, 11, 16, 23, 4, 11, 16, 23, 4, 11, 16, 23, 4, 11, 16, 23,
  6, 10, 15, 21, 6, 10, 15, 21, 6, 10, 15, 21, 6, 10, 15, 21]

def X : List Nat := [
  0, 1, 2, 3, 4, 5, 6, 7, 8, 9, 10, 11, 12, 13, 14, 15,
  1, 6, 11, 0, 5, 10, 15, 4, 9, 14, 3, 8, 13, 2, 7, 12,
  5, 8, 11, 14, 1, 4, 7, 10, 13, 0, 3, 6, 9, 12, 15, 2,
  0, 7, 14, 5, 12, 3, 10, 1, 8, 15, 6, 13, 4, 11, 2, 9]

def F (x y z : UInt32) : UInt32 := (x &&& y) ||| (~~~x &&& z)

def G (x y z : UInt32) : UInt32 := (x &&& z) ||| (y &&& ~~~z)

def H (x y z : UInt32) : UInt32 := x ^^^ y ^^^ z

def I (x y z : UInt32) : UInt32 := y ^^^ (x ||| ~~~z)

/-- What `FF`, `GG`, `HH` and `II` assign to their first argument. -/
def mix (function : UInt32 → UInt32 → UInt32 → UInt32) (a b c d x : UInt32) (i : Nat) : UInt32 :=
  let temp := function b c d + a + x + T.getD i 0
  let temp := (temp <<< S.getD i 0) ||| (temp >>> (32 - S.getD i 0))
  b + temp

def FF := mix F

def GG := mix G

def HH := mix H

def II := mix I

/-- One turn of one of the four loops of `calculateBlock`. -/
def turn (operation : UInt32 → UInt32 → UInt32 → UInt32 → UInt32 → Nat → UInt32)
    (x : Nat → UInt32) (state : State) (i : Nat) : State :=
  let ⟨a, b, c, d⟩ := state
  let a := operation a b c d (x (X.getD i 0)) i
  let d := operation d a b c (x (X.getD (i + 1) 0)) (i + 1)
  let c := operation c d a b (x (X.getD (i + 2) 0)) (i + 2)
  let b := operation b c d a (x (X.getD (i + 3) 0)) (i + 3)
  ⟨a, b, c, d⟩

/-- The words that a block is taken for. -/
def word (input : Bytes) (k : Nat) : UInt32 :=
  (input.getD (4 * k) 0).toUInt32 ||| (input.getD (4 * k + 1) 0).toUInt32 <<< 8 |||
    (input.getD (4 * k + 2) 0).toUInt32 <<< 16 ||| (input.getD (4 * k + 3) 0).toUInt32 <<< 24

/-- `calculateBlock`, with the block as the first 64 bytes of `input`. -/
def calculateBlock (state : State) (input : Bytes) : State :=
  let x := word input
  let next := [0, 4, 8, 12].foldl (turn FF x) state
  let next := [16, 20, 24, 28].foldl (turn GG x) next
  let next := [32, 36, 40, 44].foldl (turn HH x) next
  let next := [48, 52, 56, 60].foldl (turn II x) next
  ⟨state.a + next.a, state.b + next.b, state.c + next.c, state.d + next.d⟩

def resetVector : State := ⟨0x67452301, 0xEFCDAB89, 0x98BADCFE, 0x10325476⟩

/-- The loop that fills `data` up, while `newSize` is not 448 modulo 512. It
comes to that value in fewer than 2²⁹ turns. -/
def fill : Nat → Int32 → Bytes → Bytes
  | 0, _, data => data
  | turns + 1, newSize, data =>
      if newSize % 512 = 448 then data else fill turns (newSize + 8) (data ++ [0])

/-- `padding`, whose sizes in bits are of type `int`. -/
def padding (data : Bytes) : Bytes :=
  let fileBitSize : Int32 := (UInt64.ofNat data.length <<< 3).toUInt32.toInt32
  let filled :=
    if fileBitSize % 512 = 448 then data
    else fill (2 ^ 29) (fileBitSize + 8) (data ++ [0x80])
  let fileBitSize64 : UInt64 := fileBitSize.toInt64.toUInt64
  filled ++ (List.range 8).map fun i => (fileBitSize64 >>> UInt64.ofNat (8 * i)).toUInt8

def compute (data : Bytes) (state : State) : State :=
  (List.range ((data.length + 63) / 64)).foldl
    (fun state k => calculateBlock state (data.drop (64 * k))) state

/-- The `while` loop over one state word. A word is zero after four turns. -/
def pushBytes : Nat → UInt32 → Bytes
  | 0, _ => []
  | turns + 1, n => if n = 0 then [] else (n &&& 0xFF).toUInt8 :: pushBytes turns (n >>> 8)

def State.words (state : State) : List UInt32 :=
  [state.a, state.b, state.c, state.d]

def genDigest (state : State) : Bytes :=
  state.words.flatMap (pushBytes 4)

/-- The state of the object when `digest` calls `genDigest`. -/
def finalState (src : Bytes) : State :=
  compute (padding src) resetVector

def digest (src : Bytes) : Bytes :=
  genDigest (finalState src)

example : digest (ascii "abc") =
    [0x90, 0x01, 0x50, 0x98, 0x3c, 0xd2, 0x4f, 0xb0, 0xd6, 0x96, 0x3f, 0x7d, 0x28, 0xe1, 0x7f,
      0x72] := by decide +kernel

/-! ## Loops that run out of work before they run out of turns -/

/-- The turns until `newSize` is 448, by way of an overflow if it is larger. -/
def turnsLeft (newSize : Int32) : Nat :=
  if newSize.toInt ≤ 448 then ((448 - newSize.toInt) / 8).toNat
  else ((2 ^ 32 + 448 - newSize.toInt) / 8).toNat

theorem turnsLeft_lt (newSize : Int32) : turnsLeft newSize < 2 ^ 29 := by
  have least := newSize.le_toInt
  rw [turnsLeft]
  split <;> omega

theorem turnsLeft_add {newSize : Int32} (aligned : newSize.toInt % 8 = 0)
    (notDone : newSize ≠ 448) :
    (newSize + 8).toInt % 8 = 0 ∧ turnsLeft (newSize + 8) + 1 = turnsLeft newSize := by
  have least := newSize.le_toInt
  have most := newSize.toInt_lt
  have eight : (8 : Int32).toInt = 8 := rfl
  have other : newSize.toInt ≠ 448 := by
    intro same
    exact notDone (Int32.toInt_inj.mp same)
  rw [turnsLeft, turnsLeft, Int32.toInt_add, eight]
  by_cases inside : newSize.toInt + 8 < 2 ^ 31
  · rw [Int.bmod_eq_of_le (by omega) (by omega)]
    constructor
    · omega
    · split <;> split <;> omega
  · have wrapped : (newSize.toInt + 8).bmod (2 ^ 32) = newSize.toInt + 8 - 2 ^ 32 := by
      rw [← Int.sub_bmod_right, Int.bmod_eq_of_le (by omega) (by omega)]
      rfl
    rw [wrapped]
    constructor
    · omega
    · split <;> split <;> omega

/-- More turns do not change what `fill` returns. -/
theorem fill_add (more : Nat) {turns : Nat} {newSize : Int32} {data : Bytes}
    (aligned : newSize.toInt % 8 = 0) (enough : turnsLeft newSize < turns) :
    fill (turns + more) newSize data = fill turns newSize data := by
  induction turns generalizing newSize data with
  | zero => omega
  | succ turns induction =>
      rw [Nat.succ_add, fill, fill]
      split
      case isTrue => rfl
      case isFalse notDone =>
        have other : newSize ≠ 448 := by
          rintro rfl
          exact notDone rfl
        have next := turnsLeft_add aligned other
        exact induction next.1 (by omega)

theorem toNat_shiftRight_eight (n : UInt32) : (n >>> 8).toNat = n.toNat / 256 := by
  rw [UInt32.toNat_shiftRight, Nat.shiftRight_eq_div_pow]
  rfl

theorem pushBytes_add (more : Nat) {turns : Nat} {n : UInt32} (fits : n.toNat < 256 ^ turns) :
    pushBytes (turns + more) n = pushBytes turns n := by
  induction turns generalizing n with
  | zero =>
      have zero : n = 0 := by
        rw [← UInt32.toNat_inj]
        simpa using fits
      cases more with
      | zero => rfl
      | succ more =>
          rw [Nat.zero_add]
          exact if_pos zero
  | succ turns induction =>
      have smaller : (n >>> 8).toNat < 256 ^ turns := by
        rw [toNat_shiftRight_eight, Nat.div_lt_iff_lt_mul (by decide)]
        exact fits
      rw [Nat.succ_add, pushBytes, pushBytes, induction smaller]

end NetRpc.MD5
