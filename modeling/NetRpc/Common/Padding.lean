import NetRpc.Common.MD5

/-! # MD5 padding

A padded text is the text, the byte 0x80, zeros and the length in bits.
`padding` leaves out the 0x80 and the zeros where the text itself ends 8 bytes
short of a block, and its count of bits overflows at the upper end of `int`.
-/

namespace NetRpc.MD5

/-- The 8 bytes of a length in bits, the least significant first. -/
def lengthBytes (bits : Nat) : Bytes :=
  (List.range 8).map fun i => UInt8.ofNat (bits / 256 ^ i)

/-- The least number of zeros that brings `length` bytes to 56 modulo 64. -/
structure LeastZeros (length zeros : Nat) : Prop where
  reaches : (length + zeros) % 64 = 56
  least : ∀ fewer < zeros, (length + fewer) % 64 ≠ 56

/-- What `compute` hands to `calculateBlock`. -/
def blocks (data : Bytes) : List Bytes :=
  (List.range ((data.length + 63) / 64)).map fun k => (data.drop (64 * k)).take 64

structure FollowsStandard (src : Bytes) : Prop where
  padded : ∃ zeros, LeastZeros (src.length + 1) zeros ∧
    padding src = src ++ 0x80 :: List.replicate zeros 0 ++ lengthBytes (8 * src.length)
  whole : (padding src).length % 64 = 0
  wholeBlocks : ∀ block ∈ blocks (padding src), block.length = 64

/-! ## Blocks -/

theorem X_lt (i : Nat) : X.getD i 0 < 16 := by
  have all : ∀ x ∈ X, x < 16 := by decide
  rw [List.getD_eq_getElem?_getD]
  cases found : X[i]? with
  | none => exact Nat.zero_lt_succ 15
  | some x => exact all x (List.mem_of_getElem? found)

/-- A turn reads sixteen words. -/
theorem turn_congr {x y : Nat → UInt32} (same : ∀ k < 16, x k = y k)
    (operation : UInt32 → UInt32 → UInt32 → UInt32 → UInt32 → Nat → UInt32) :
    turn operation x = turn operation y := by
  funext state i
  rw [turn, turn, same _ (X_lt i), same _ (X_lt (i + 1)), same _ (X_lt (i + 2)),
    same _ (X_lt (i + 3))]

theorem word_take (input : Bytes) {k : Nat} (inside : k < 16) :
    word (input.take 64) k = word input k := by
  have byte : ∀ i < 64, (input.take 64).getD i 0 = input.getD i 0 := by
    intro i inBlock
    rw [List.getD_eq_getElem?_getD, List.getD_eq_getElem?_getD, List.getElem?_take, if_pos inBlock]
  rw [word, word, byte _ (by omega), byte _ (by omega), byte _ (by omega), byte _ (by omega)]

theorem calculateBlock_take (state : State) (input : Bytes) :
    calculateBlock state (input.take 64) = calculateBlock state input := by
  have same := turn_congr fun k inside => word_take input inside
  rw [calculateBlock, calculateBlock, same FF, same GG, same HH, same II]

theorem compute_eq_blocks (data : Bytes) (state : State) :
    compute data state = (blocks data).foldl calculateBlock state := by
  rw [compute, blocks, List.foldl_map]
  simp only [calculateBlock_take]

theorem wholeBlocks_iff (data : Bytes) :
    (∀ block ∈ blocks data, block.length = 64) ↔ data.length % 64 = 0 := by
  constructor
  · intro whole
    rcases Nat.eq_zero_or_pos (data.length % 64) with none | some
    · exact none
    · have last : (data.drop (64 * (data.length / 64))).take 64 ∈ blocks data := by
        apply List.mem_map_of_mem
        rw [List.mem_range]
        omega
      have length := whole _ last
      rw [List.length_take, List.length_drop] at length
      omega
  · intro whole block member
    rcases List.mem_map.mp member with ⟨k, inside, rfl⟩
    rw [List.mem_range] at inside
    rw [List.length_take, List.length_drop]
    omega

/-! ## The length in bits -/

/-- `fileBitSize` -/
def fileBitSize (data : Bytes) : Int32 :=
  (UInt64.ofNat data.length <<< 3).toUInt32.toInt32

theorem fileBitSize_eq {data : Bytes} (bounded : data.length < 2 ^ 28) :
    fileBitSize data = .ofNat (8 * data.length) := by
  have shifted : UInt64.ofNat data.length <<< 3 = .ofNat (8 * data.length) := by
    have three : (3 : UInt64).toNat % 64 = 3 := rfl
    rw [← UInt64.toNat_inj, UInt64.toNat_shiftLeft, three, Nat.shiftLeft_eq, UInt64.toNat_ofNat',
      UInt64.toNat_ofNat', Nat.mod_eq_of_lt (by omega : data.length < 2 ^ 64), Nat.mul_comm]
  rw [fileBitSize, shifted, UInt64.toUInt32_ofNat', UInt32.toInt32_ofNat']

/-- The bytes that are pushed last. -/
theorem map_shiftRight_eq_lengthBytes {bits : Nat} (bounded : bits < 2 ^ 31) :
    ((List.range 8).map fun i =>
      ((Int32.ofNat bits).toInt64.toUInt64 >>> UInt64.ofNat (8 * i)).toUInt8) =
        lengthBytes bits := by
  have most : (bits : Int) ≤ Int32.maxValue.toInt := by
    have value : Int32.maxValue.toInt = 2 ^ 31 - 1 := rfl
    omega
  apply List.map_congr_left
  intro i inside
  rw [List.mem_range] at inside
  have places : (UInt64.ofNat (8 * i)).toNat % 64 = 8 * i := by
    rw [UInt64.toNat_ofNat']
    omega
  rw [Int32.toInt64_ofNat' most, Int64.toUInt64_ofNat', ← UInt8.toNat_inj, UInt64.toNat_toUInt8,
    UInt64.toNat_shiftRight, places, UInt64.toNat_ofNat',
    Nat.mod_eq_of_lt (by omega : bits < 2 ^ 64), Nat.shiftRight_eq_div_pow, Nat.pow_mul,
    UInt8.toNat_ofNat']

/-! ## Zeros -/

theorem leastZeros_lt {length zeros : Nat} (least : LeastZeros length zeros) : zeros < 64 := by
  rcases Nat.lt_or_ge zeros 64 with inside | atLeast
  · exact inside
  · have reaches := least.reaches
    exact absurd (by omega) (least.least (zeros - 64) (by omega))

theorem exists_leastZeros (length : Nat) : ∃ zeros, LeastZeros length zeros := by
  refine ⟨(120 - length % 64) % 64, ?_, ?_⟩
  · omega
  · intro fewer inside
    omega

theorem fill_length_le (turns : Nat) (newSize : Int32) (data : Bytes) :
    data.length ≤ (fill turns newSize data).length := by
  induction turns generalizing newSize data with
  | zero => exact Nat.le_refl _
  | succ turns induction =>
      rw [fill]
      split
      · exact Nat.le_refl _
      · have later := induction (newSize + 8) (data ++ [0])
        rw [List.length_append, List.length_singleton] at later
        omega

/-- Whether the loop stops, for a size that may have overflowed. The remainder
of a negative size is not positive. -/
theorem ofNat_mod_eq_iff {size : Nat} (bounded : size < 2 ^ 32) :
    Int32.ofNat size % 512 = 448 ↔ size < 2 ^ 31 ∧ size % 512 = 448 := by
  have toInt : (448 : Int32).toInt = 448 ∧ (512 : Int32).toInt = 512 := ⟨rfl, rfl⟩
  rw [← Int32.toInt_inj, Int32.toInt_mod, toInt.1, toInt.2]
  by_cases inside : size < 2 ^ 31
  · rw [Int32.toInt_ofNat_of_lt inside, Int.tmod_eq_emod_of_nonneg (by omega)]
    omega
  · have wrapped : (Int32.ofNat size).toInt = -(2 ^ 32 - size) := by
      rw [Int32.toInt_ofNat', ← Int.sub_bmod_right, Int.bmod_eq_of_le]
      · simp only [Int32.size]
        omega
      · simp only [Int32.size]
        omega
      · simp only [Int32.size]
        omega
    rw [wrapped, Int.neg_tmod, Int.tmod_eq_emod_of_nonneg (by omega)]
    omega

/-- Where the loop does not stop for some turns, it pushes that many zeros. -/
theorem fill_skip {size : Nat} {zeros : Nat} {data : Bytes} (turns : Nat)
    (goesOn : ∀ fewer < zeros, Int32.ofNat (size + 8 * fewer) % 512 ≠ 448) :
    fill (zeros + turns) (.ofNat size) data =
      fill turns (.ofNat (size + 8 * zeros)) (data ++ List.replicate zeros 0) := by
  induction zeros generalizing size data with
  | zero => simp
  | succ zeros induction =>
      have first : Int32.ofNat size % 512 ≠ 448 := goesOn 0 (Nat.zero_lt_succ zeros)
      have later : ∀ fewer < zeros, Int32.ofNat (size + 8 + 8 * fewer) % 512 ≠ 448 := by
        intro fewer inside
        have next := goesOn (fewer + 1) (Nat.succ_lt_succ inside)
        rw [Nat.mul_succ, Nat.add_comm (8 * fewer), ← Nat.add_assoc] at next
        exact next
      have eight : Int32.ofNat size + 8 = .ofNat (size + 8) := (Int32.ofNat_add size 8).symm
      rw [Nat.succ_add, fill, if_neg first, eight, induction later, List.append_assoc,
        List.replicate_succ, Nat.mul_succ, Nat.add_comm (8 * zeros), ← Nat.add_assoc]
      rfl

theorem fill_eq {size zeros turns : Nat} {data : Bytes} (enough : zeros < turns)
    (goesOn : ∀ fewer < zeros, Int32.ofNat (size + 8 * fewer) % 512 ≠ 448)
    (stops : Int32.ofNat (size + 8 * zeros) % 512 = 448) :
    fill turns (.ofNat size) data = data ++ List.replicate zeros 0 := by
  rcases Nat.exists_eq_add_of_lt enough with ⟨rest, rfl⟩
  rw [Nat.add_assoc, fill_skip _ goesOn, fill, if_pos stops]

theorem length_fill_of_goesOn {size zeros turns : Nat} {data : Bytes} (enough : zeros ≤ turns)
    (goesOn : ∀ fewer < zeros, Int32.ofNat (size + 8 * fewer) % 512 ≠ 448) :
    data.length + zeros ≤ (fill turns (.ofNat size) data).length := by
  rcases Nat.exists_eq_add_of_le enough with ⟨rest, rfl⟩
  have atLeast := fill_length_le rest (.ofNat (size + 8 * zeros)) (data ++ List.replicate zeros 0)
  rw [List.length_append, List.length_replicate] at atLeast
  rw [fill_skip _ goesOn]
  exact atLeast

/-! ## The padded text -/

theorem padding_eq {data : Bytes} (bounded : data.length < 2 ^ 28) :
    padding data =
      (if data.length % 64 = 56 then data
      else fill (2 ^ 29) (.ofNat (8 * data.length + 8)) (data ++ [0x80])) ++
        lengthBytes (8 * data.length) := by
  have stops : Int32.ofNat (8 * data.length) % 512 = 448 ↔ data.length % 64 = 56 := by
    rw [ofNat_mod_eq_iff (by omega)]
    omega
  have size := fileBitSize_eq bounded
  rw [fileBitSize] at size
  have eight : Int32.ofNat (8 * data.length) + 8 = .ofNat (8 * data.length + 8) :=
    (Int32.ofNat_add _ 8).symm
  have fits : 8 * data.length < 2 ^ 31 := by omega
  rw [padding]
  simp only [size, stops, eight, map_shiftRight_eq_lengthBytes fits]

theorem lengthBytes_length (bits : Nat) : (lengthBytes bits).length = 8 := by
  rw [lengthBytes, List.length_map, List.length_range]

/-- Whether the loop goes on behind 0x80 and some zeros. -/
theorem ofNat_stops_iff {length zeros : Nat} (bounded : length < 2 ^ 28) (few : zeros ≤ 64) :
    Int32.ofNat (8 * length + 8 + 8 * zeros) % 512 = 448 ↔
      length + 1 + zeros < 2 ^ 28 ∧ (length + 1 + zeros) % 64 = 56 := by
  rw [ofNat_mod_eq_iff (by omega)]
  omega

theorem padding_of_lt {data : Bytes} {zeros : Nat} (least : LeastZeros (data.length + 1) zeros)
    (inside : data.length + 1 + zeros < 2 ^ 28) (notShort : data.length % 64 ≠ 56) :
    padding data =
      data ++ 0x80 :: List.replicate zeros 0 ++ lengthBytes (8 * data.length) := by
  have few := leastZeros_lt least
  have bounded : data.length < 2 ^ 28 := by omega
  have goesOn : ∀ fewer < zeros,
      Int32.ofNat (8 * data.length + 8 + 8 * fewer) % 512 ≠ 448 := by
    intro fewer before stops
    rw [ofNat_stops_iff bounded (by omega)] at stops
    exact least.least fewer before stops.2
  have stops : Int32.ofNat (8 * data.length + 8 + 8 * zeros) % 512 = 448 :=
    (ofNat_stops_iff bounded (by omega)).mpr ⟨inside, least.reaches⟩
  rw [padding_eq bounded, if_neg notShort, fill_eq (by omega) goesOn stops,
    List.append_assoc data, List.singleton_append]

/-- Where the count of bits overflows, more zeros are pushed than any text needs. -/
theorem length_padding_of_overflow {data : Bytes} (bounded : data.length < 2 ^ 28)
    (overflows : 2 ^ 28 - 8 < data.length) : data.length + 73 ≤ (padding data).length := by
  have goesOn : ∀ fewer < 64, Int32.ofNat (8 * data.length + 8 + 8 * fewer) % 512 ≠ 448 := by
    intro fewer before stops
    rw [ofNat_stops_iff bounded (by omega)] at stops
    omega
  have filled : (data ++ [0x80]).length + 64 ≤ _ :=
    length_fill_of_goesOn (by omega : 64 ≤ 2 ^ 29) goesOn
  rw [List.length_append, List.length_singleton] at filled
  rw [padding_eq bounded, if_neg (by omega), List.length_append, lengthBytes_length]
  omega

namespace FollowsStandard

variable {src : Bytes}

theorem length_padding (follows : FollowsStandard src) :
    src.length + 9 ≤ (padding src).length ∧ (padding src).length < src.length + 73 := by
  rcases follows.padded with ⟨zeros, least, padded⟩
  have few := leastZeros_lt least
  rw [padded]
  simp only [List.length_append, List.length_cons, List.length_replicate, lengthBytes_length]
  omega

theorem notShort (follows : FollowsStandard src) (bounded : src.length < 2 ^ 28) :
    src.length % 64 ≠ 56 := by
  intro short
  have atLeast := follows.length_padding.1
  rw [padding_eq bounded, if_pos short, List.length_append, lengthBytes_length] at atLeast
  omega

theorem noOverflow (follows : FollowsStandard src) (bounded : src.length < 2 ^ 28) :
    src.length < 2 ^ 28 - 7 := by
  rcases Nat.lt_or_ge src.length (2 ^ 28 - 7) with inside | overflows
  · exact inside
  · have long := length_padding_of_overflow bounded (by omega)
    have short := follows.length_padding.2
    omega

theorem of_lt (inside : src.length < 2 ^ 28 - 7) (notShort : src.length % 64 ≠ 56) :
    FollowsStandard src := by
  rcases exists_leastZeros (src.length + 1) with ⟨zeros, least⟩
  have reaches := least.reaches
  have notLater : ¬2 ^ 28 - 8 - (src.length + 1) < zeros := by
    intro fewer
    exact least.least _ fewer (by omega)
  have padded := padding_of_lt least (by omega) notShort
  have whole : (padding src).length % 64 = 0 := by
    rw [padded]
    simp only [List.length_append, List.length_cons, List.length_replicate, lengthBytes_length]
    omega
  exact ⟨⟨zeros, least, padded⟩, whole, (wholeBlocks_iff _).mpr whole⟩

end FollowsStandard

/-- The padding is that of the standard exactly if the text does not end 8 bytes
short of a block and the count of bits does not overflow. -/
theorem followsStandard_iff {src : Bytes} (bounded : src.length < 2 ^ 28) :
    FollowsStandard src ↔ src.length % 64 ≠ 56 ∧ src.length < 2 ^ 28 - 7 := by
  constructor
  · intro follows
    exact ⟨follows.notShort bounded, follows.noOverflow bounded⟩
  · rintro ⟨notShort, inside⟩
    exact .of_lt inside notShort

theorem followsStandard_iff_abc :
    FollowsStandard (ascii "abc") ↔
      (ascii "abc").length % 64 ≠ 56 ∧ (ascii "abc").length < 2 ^ 28 - 7 :=
  followsStandard_iff (by decide)

/-- A text of 56 bytes is padded with nothing but its length. -/
theorem not_followsStandard_short :
    padding (List.replicate 56 0x61) = List.replicate 56 0x61 ++ lengthBytes 448 ∧
      ¬FollowsStandard (List.replicate 56 0x61) := by
  have bounded : (List.replicate 56 (0x61 : Byte)).length < 2 ^ 28 := by decide
  constructor
  · exact padding_eq bounded
  · intro follows
    exact follows.notShort bounded rfl

end NetRpc.MD5
