import NetRpc.Common.CString
import NetRpc.Foundation.Occurrence

/-! # Addresses as text

`CheckValid` and the constructor of `IPNetAddr` each take an `ip:port` text
apart at its first colon.
-/

namespace NetRpc

def colon : Byte := 0x3a

/-- The address without the `sockaddr_in` that is made from it. -/
structure IPNetAddr where
  ip : Bytes := []
  port : UInt16 := 0
deriving DecidableEq

namespace IPNetAddr

/-- `CheckValid` -/
def checkValid (addr : Bytes) : Bool :=
  match addr.findIdx? (· == colon) with
  | none => false
  | some i =>
      let ip := addr.take i
      let port := addr.drop (i + 1)
      if ip.isEmpty || port.isEmpty then
        false
      else
        let iport := atoi port
        !(iport ≤ 0 || iport > 65536)

/-- The constructor from a text. -/
def ofText (addr : Bytes) : IPNetAddr :=
  match addr.findIdx? (· == colon) with
  | none => {}
  | some i => { ip := addr.take i, port := .ofInt (atoi (addr.drop (i + 1))).toInt }

/-- `toString` -/
def toString (addr : IPNetAddr) : Bytes :=
  addr.ip ++ colon :: decimal addr.port.toNat

/-- The text in front of the first colon. -/
def textBefore (addr : Bytes) : Bytes :=
  addr.takeWhile (· ≠ colon)

/-- The number that `CheckValid` compares with its bounds. -/
def validatedPort (addr : Bytes) : Int32 :=
  atoi (addr.drop ((textBefore addr).length + 1))

variable {ip : Bytes} {port : Nat}

theorem checkValid_append (noColon : colon ∉ ip) (rest : Bytes) :
    checkValid (ip ++ colon :: rest) = true ↔
      ip ≠ [] ∧ rest ≠ [] ∧ 0 < (atoi rest).toInt ∧ (atoi rest).toInt ≤ 65536 := by
  simp only [checkValid, findIdx?_separator noColon, List.take_left, drop_separator]
  have zero : (0 : Int32).toInt = 0 := rfl
  have limit : (65536 : Int32).toInt = 65536 := rfl
  split
  · next empty =>
      rw [Bool.or_eq_true, List.isEmpty_iff, List.isEmpty_iff] at empty
      constructor
      · intro impossible
        cases impossible
      · rintro ⟨some, nonempty, _⟩
        rcases empty with none | none
        · exact absurd none some
        · exact absurd none nonempty
  · next both =>
      rw [Bool.or_eq_true, List.isEmpty_iff, List.isEmpty_iff, not_or] at both
      rw [Bool.not_eq_true', Bool.or_eq_false_iff, decide_eq_false_iff_not,
        decide_eq_false_iff_not, Int32.le_iff_toInt_le, gt_iff_lt, Int32.lt_iff_toInt_lt, zero,
        limit, Int.not_le, Int.not_lt]
      exact ⟨fun range => ⟨both.1, both.2, range⟩, fun valid => valid.2.2⟩

theorem ofText_append (noColon : colon ∉ ip) (rest : Bytes) :
    ofText (ip ++ colon :: rest) = { ip, port := .ofInt (atoi rest).toInt } := by
  simp only [ofText, findIdx?_separator noColon, List.take_left, drop_separator]

/-- A printed address is accepted where its port is not zero. -/
theorem checkValid_decimal (nonempty : ip ≠ []) (noColon : colon ∉ ip) (positive : 0 < port)
    (bounded : port ≤ 65536) : checkValid (ip ++ colon :: decimal port) = true := by
  rw [checkValid_append noColon, atoi_decimal (by omega)]
  exact ⟨nonempty, decimal_ne_nil port, by omega, by omega⟩

theorem ofInt_natCast (bounded : port < 65536) : UInt16.ofInt port = .ofNat port := by
  rw [UInt16.ofInt]
  congr 1
  omega

theorem ofText_decimal (noColon : colon ∉ ip) (bounded : port < 65536) :
    ofText (ip ++ colon :: decimal port) = { ip, port := .ofNat port } := by
  rw [ofText_append noColon, atoi_decimal (by omega), ofInt_natCast bounded]

theorem textBefore_append (noColon : colon ∉ ip) (rest : Bytes) :
    textBefore (ip ++ colon :: rest) = ip := by
  have inside : ∀ byte ∈ ip, decide (byte ≠ colon) = true := by
    intro byte member
    rw [decide_eq_true_eq]
    rintro rfl
    exact noColon member
  rw [textBefore, List.takeWhile_append_of_pos inside, List.takeWhile_cons_of_neg (by simp),
    List.append_nil]

theorem validatedPort_append (noColon : colon ∉ ip) (rest : Bytes) :
    validatedPort (ip ++ colon :: rest) = atoi rest := by
  rw [validatedPort, textBefore_append noColon, drop_separator]

theorem exists_append_of_checkValid {addr : Bytes} (valid : checkValid addr = true) :
    ∃ ip rest, addr = ip ++ colon :: rest ∧ colon ∉ ip := by
  apply List.eq_append_cons_of_mem
  by_contra absent
  have notFound : addr.findIdx? (· == colon) = none := by
    rw [List.findIdx?_eq_none_iff]
    intro byte member
    rw [beq_eq_false_iff_ne]
    rintro rfl
    exact absent member
  rw [checkValid, notFound] at valid
  cases valid

/-- The address made of an accepted text holds what the text says, and so does
the address made of its printed form. -/
structure Survives (addr : Bytes) : Prop where
  ip : (ofText addr).ip = textBefore addr
  port : ((ofText addr).port.toNat : Int) = (validatedPort addr).toInt
  accepted : checkValid (ofText addr).toString = true
  parsed : ofText (ofText addr).toString = ofText addr

/-- An accepted text survives exactly if its port is not the one bound that a
16-bit number cannot hold. -/
theorem survives_iff (addr : Bytes) (valid : checkValid addr = true) :
    Survives addr ↔ validatedPort addr ≠ 65536 := by
  rcases exists_append_of_checkValid valid with ⟨ip, rest, rfl, noColon⟩
  rw [checkValid_append noColon] at valid
  rcases valid with ⟨nonempty, _, positive, bounded⟩
  have made := ofText_append noColon rest
  have number := validatedPort_append noColon rest
  constructor
  · intro survives limit
    have port := survives.port
    rw [made, number] at port
    rw [number] at limit
    rw [limit] at port
    cases port
  · intro differs
    rw [number] at differs
    have below : (atoi rest).toInt ≠ 65536 := fun limit => differs (Int32.toInt_inj.mp limit)
    rcases Int.eq_ofNat_of_zero_le (Int.le_of_lt positive) with ⟨port, value⟩
    have fits : port < 65536 := by omega
    rw [value, ofInt_natCast fits] at made
    have held : (UInt16.ofNat port).toNat = port := UInt16.toNat_ofNat_of_lt' fits
    have printed : (ofText (ip ++ colon :: rest)).toString = ip ++ colon :: decimal port := by
      rw [made, toString, held]
    refine ⟨?_, ?_, ?_, ?_⟩
    · rw [made, textBefore_append noColon]
    · rw [made, number, held, value]
    · rw [printed]
      exact checkValid_decimal nonempty noColon (by omega) (by omega)
    · rw [printed, ofText_decimal noColon fits, made]

theorem survives_iff_http :
    Survives (ascii "127.0.0.1:80") ↔ validatedPort (ascii "127.0.0.1:80") ≠ 65536 :=
  survives_iff (ascii "127.0.0.1:80") (by decide +kernel)

/-- The accepted bound becomes port zero, which is not accepted again. -/
theorem not_survives_limit :
    checkValid (ascii "127.0.0.1:65536") = true ∧ ¬Survives (ascii "127.0.0.1:65536") := by
  refine ⟨by decide +kernel, ?_⟩
  intro survives
  exact absurd survives.accepted (by decide +kernel)

end IPNetAddr

end NetRpc
