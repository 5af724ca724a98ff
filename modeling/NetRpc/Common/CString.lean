import Mathlib.Data.List.TakeWhile
import NetRpc.Common.NetByte

/-! # C strings and decimal numbers

What the C library makes of an array of characters.
-/

namespace NetRpc

/-- The characters in front of the terminator. An array without one is read
beyond its end. -/
def readCString : Bytes → Option Bytes
  | [] => none
  | byte :: rest => if byte = 0 then some [] else (readCString rest).map (byte :: ·)

/-- `%d`, and `std::to_string` of an `int`. -/
def decimal (number : Int) : Bytes :=
  ascii (toString number)

def isSpace (byte : Byte) : Bool :=
  byte = 0x20 || (0x09 ≤ byte && byte ≤ 0x0d)

def isDigit (byte : Byte) : Bool :=
  0x30 ≤ byte && byte ≤ 0x39

/-- The number that the digits at the front stand for. -/
def digits (text : Bytes) : Nat :=
  (text.takeWhile isDigit).foldl (fun value byte => 10 * value + (byte.toNat - 48)) 0

/-- `strtol` in base 10, on a 64-bit `long`. -/
def strtol (text : Bytes) : Int :=
  let text := text.dropWhile isSpace
  if text.head? = some 0x2d then
    max (-2 ^ 63) (-digits text.tail)
  else if text.head? = some 0x2b then
    min (2 ^ 63 - 1) (digits text.tail)
  else
    min (2 ^ 63 - 1) (digits text)

/-- The C library casts what `strtol` returns. -/
def atoi (text : Bytes) : Int32 :=
  .ofInt (strtol text)

example : atoi (ascii " -12x4") = -12 := by decide +kernel

/-! ## Terminators -/

theorem readCString_append {text : Bytes} (noNul : 0 ∉ text) (rest : Bytes) :
    readCString (text ++ rest) = (readCString rest).map (text ++ ·) := by
  induction text with
  | nil => simp
  | cons byte text induction =>
      rw [List.mem_cons, not_or] at noNul
      rw [List.cons_append, readCString, if_neg (Ne.symm noNul.1), induction noNul.2,
        Option.map_map]
      rfl

/-- A text is read back exactly if a terminator follows it. -/
theorem readCString_eq_iff {text : Bytes} (noNul : 0 ∉ text) (rest : Bytes) :
    readCString (text ++ rest) = some text ↔ rest.head? = some 0 := by
  rw [readCString_append noNul, Option.map_eq_some_iff]
  cases rest with
  | nil => simp [readCString]
  | cons byte rest =>
      rw [readCString, List.head?_cons, Option.some.injEq]
      by_cases terminator : byte = 0
      · simp [terminator]
      · simp [terminator]

/-! ## Decimal numbers -/

theorem decimal_natCast (number : Nat) :
    decimal number =
      (Nat.toDigits 10 number).map fun letter => UInt8.ofNat letter.toNat := by
  rw [decimal, ascii]
  congr 1
  exact Nat.toList_repr

/-- A decimal digit is its own byte. -/
theorem byte_of_digit {letter : Char} (digit : letter.isDigit = true) :
    isDigit (UInt8.ofNat letter.toNat) = true ∧
      (UInt8.ofNat letter.toNat).toNat = letter.toNat := by
  simp only [Char.isDigit, Bool.and_eq_true, decide_eq_true_eq, ge_iff_le, UInt32.le_iff_toNat_le]
    at digit
  have lower : 48 ≤ letter.toNat := digit.1
  have upper : letter.toNat ≤ 57 := digit.2
  have value : (UInt8.ofNat letter.toNat).toNat = letter.toNat := by
    rw [UInt8.toNat_ofNat']
    omega
  refine ⟨?_, value⟩
  simp only [isDigit, Bool.and_eq_true, decide_eq_true_eq, UInt8.le_iff_toNat_le, value]
  exact ⟨lower, upper⟩

theorem isDigit_of_mem_decimal {number : Nat} {byte : Byte} (member : byte ∈ decimal number) :
    isDigit byte = true := by
  rw [decimal_natCast, List.mem_map] at member
  rcases member with ⟨letter, inside, rfl⟩
  exact (byte_of_digit (Nat.isDigit_of_mem_toDigits (by omega) (by omega) inside)).1

theorem decimal_ne_nil (number : Nat) : decimal number ≠ [] := by
  rw [decimal_natCast]
  simp

/-- The value of the digits, read from the front. -/
theorem foldl_digits {letters : List Char} (all : ∀ letter ∈ letters, letter.isDigit = true)
    (value : Nat) :
    (letters.map fun letter => UInt8.ofNat letter.toNat).foldl
        (fun value byte => 10 * value + (byte.toNat - 48)) value =
      Nat.ofDigitChars 10 letters value := by
  induction letters generalizing value with
  | nil => rfl
  | cons letter letters induction =>
      have first := (byte_of_digit (all letter List.mem_cons_self)).2
      have rest := induction fun other member => all other (List.mem_cons_of_mem _ member)
      rw [List.map_cons, List.foldl_cons, first, rest, Nat.ofDigitChars_cons]
      rfl

theorem digits_decimal (number : Nat) : digits (decimal number) = number := by
  have all : ∀ letter ∈ Nat.toDigits 10 number, letter.isDigit = true :=
    fun letter => Nat.isDigit_of_mem_toDigits (by omega) (by omega)
  rw [digits, List.takeWhile_eq_self_iff.mpr fun byte => isDigit_of_mem_decimal,
    decimal_natCast, foldl_digits all, Nat.ofDigitChars_ten_toDigits]

/-- A digit starts neither with a blank nor with a sign. -/
theorem strtol_of_digit {byte : Byte} (digit : isDigit byte = true) (rest : Bytes) :
    strtol (byte :: rest) = min (2 ^ 63 - 1) (digits (byte :: rest) : Int) := by
  simp only [isDigit, Bool.and_eq_true, decide_eq_true_eq, UInt8.le_iff_toNat_le] at digit
  have lower : 48 ≤ byte.toNat := digit.1
  have upper : byte.toNat ≤ 57 := digit.2
  have differs : ∀ other : Byte, other.toNat < 48 → byte ≠ other := by
    rintro other below rfl
    omega
  have notSpace : isSpace byte = false := by
    have blank : byte ≠ 0x20 := differs 0x20 (by decide)
    have above : ¬byte ≤ 0x0d := by
      rw [UInt8.le_iff_toNat_le]
      change ¬byte.toNat ≤ 13
      omega
    simp [isSpace, blank, above]
  have minus : byte ≠ 0x2d := differs 0x2d (by decide)
  have plus : byte ≠ 0x2b := differs 0x2b (by decide)
  simp [strtol, notSpace, minus, plus]

/-- What `%d` prints, `atoi` reads. -/
theorem atoi_decimal {number : Nat} (fits : number < 2 ^ 31) :
    (atoi (decimal number)).toInt = number := by
  have value : strtol (decimal number) = number := by
    have read := digits_decimal number
    cases shown : decimal number with
    | nil => exact absurd shown (decimal_ne_nil number)
    | cons byte rest =>
        have first : byte ∈ decimal number := by
          rw [shown]
          exact List.mem_cons_self
        have digit := isDigit_of_mem_decimal first
        rw [shown] at read
        rw [strtol_of_digit digit, read]
        omega
  rw [atoi, value, Int32.toInt_ofInt]
  exact Int.bmod_eq_of_le (by simp [Int32.size]) (by simp [Int32.size]; omega)

end NetRpc
