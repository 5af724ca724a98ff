import NetRpc.Foundation.Sines
import Mathlib.Algebra.Group.Nat.Defs
import Mathlib.Data.List.DropRight

/-! # A message digest of four words

A text is padded to whole blocks. Sixty-four steps for each block mix its
sixteen words into four registers, and the registers make up the digest. Words
are read and written least significant byte first.
-/

namespace NetRpc.MessageDigest

structure Registers where
  a : UInt32
  b : UInt32
  c : UInt32
  d : UInt32
deriving DecidableEq

def Registers.words (registers : Registers) : List UInt32 :=
  [registers.a, registers.b, registers.c, registers.d]

/-- The word that four bytes make up. -/
def ofBytes (bytes : List UInt8) : UInt32 :=
  .ofNat (bytes.foldr (fun byte high => byte.toNat + 256 * high) 0)

def toBytes (word : UInt32) : List UInt8 :=
  (List.range 4).map fun place => .ofNat (word.toNat / 256 ^ place)

/-- Word `k` of a block. -/
def word (block : List UInt8) (k : Nat) : UInt32 :=
  ofBytes ((block.drop (4 * k)).take 4)

/-- The function of step `i`, one for each sixteen steps. -/
def auxiliary (i : Nat) (x y z : UInt32) : UInt32 :=
  if i < 16 then (x &&& y) ||| (~~~x &&& z)
  else if i < 32 then (x &&& z) ||| (y &&& ~~~z)
  else if i < 48 then x ^^^ y ^^^ z
  else y ^^^ (x ||| ~~~z)

/-- The word that step `i` mixes in. -/
def position (i : Nat) : Nat :=
  if i < 16 then i
  else if i < 32 then (5 * i + 1) % 16
  else if i < 48 then (3 * i + 5) % 16
  else 7 * i % 16

def amounts (i : Nat) : List Nat :=
  if i < 16 then [7, 12, 17, 22]
  else if i < 32 then [5, 9, 14, 20]
  else if i < 48 then [4, 11, 16, 23]
  else [6, 10, 15, 21]

/-- The places that step `i` rotates by. -/
def amount (i : Nat) : Nat :=
  (amounts i).getD (i % 4) 0

def rotateLeft (word : UInt32) (count : Nat) : UInt32 :=
  ⟨word.toBitVec.rotateLeft count⟩

/-- The constant of step `i`, which counts from 0. -/
noncomputable def sines (i : Nat) : UInt32 :=
  .ofNat (Sines.scaled (i + 1))

section

variable (constants : Nat → UInt32)

def step (words : Nat → UInt32) (registers : Registers) (i : Nat) : Registers :=
  let ⟨a, b, c, d⟩ := registers
  let sum := a + auxiliary i b c d + words (position i) + constants i
  ⟨d, b + rotateLeft sum (amount i), b, c⟩

def compress (registers : Registers) (block : List UInt8) : Registers :=
  let mixed := (List.range 64).foldl (step constants (word block)) registers
  ⟨registers.a + mixed.a, registers.b + mixed.b, registers.c + mixed.c, registers.d + mixed.d⟩

def initial : Registers :=
  ⟨0x67452301, 0xEFCDAB89, 0x98BADCFE, 0x10325476⟩

/-- The text, a one bit, zeros up to 8 bytes short of a block, and the length in bits. -/
def pad (text : List UInt8) : List UInt8 :=
  text ++ 0x80 :: List.replicate ((119 - text.length % 64) % 64) 0 ++
    (List.range 8).map fun place => .ofNat (8 * text.length / 256 ^ place)

def blocks (padded : List UInt8) : List (List UInt8) :=
  (List.range (padded.length / 64)).map fun k => (padded.drop (64 * k)).take 64

def registers (text : List UInt8) : Registers :=
  (blocks (pad text)).foldl (compress constants) initial

def digest (text : List UInt8) : List UInt8 :=
  (registers constants text).words.flatMap toBytes

end

/-! ## Four steps at a time -/

/-- The steps `i` to `i + 3`, after which every register has its place back. -/
def fourSteps {State : Type u} (step : State → Nat → State) (state : State) (i : Nat) : State :=
  step (step (step (step state i) (i + 1)) (i + 2)) (i + 3)

theorem foldl_range_four_mul {State : Type u} (step : State → Nat → State) (state : State)
    (turns : Nat) :
    (List.range (4 * turns)).foldl step state =
      ((List.range turns).map (4 * ·)).foldl (fourSteps step) state := by
  induction turns with
  | zero => rfl
  | succ turns induction =>
      rw [Nat.mul_succ, List.range_succ (n := turns), List.map_append, List.foldl_append,
        ← induction]
      simp only [List.range_succ, List.foldl_append, List.foldl_cons, List.foldl_nil,
        List.map_cons, List.map_nil, fourSteps]

/-- The two shifts that rotate a word. -/
theorem rotateLeft_eq {word count : UInt32} (positive : 0 < count.toNat)
    (inside : count.toNat < 32) :
    rotateLeft word count.toNat = (word <<< count) ||| (word >>> (32 - count)) := by
  have rest : (32 - count).toNat = 32 - count.toNat := by
    rw [UInt32.toNat_sub_of_le]
    · rfl
    · exact UInt32.le_iff_toNat_le.mpr (Nat.le_of_lt inside)
  rw [← UInt32.toBitVec_inj]
  simp [rotateLeft, UInt32.toBitVec_shiftRight, UInt32.toBitVec_shiftLeft,
    BitVec.rotateLeft_def, Nat.mod_eq_of_lt inside]
  congr 2
  omega

end NetRpc.MessageDigest
