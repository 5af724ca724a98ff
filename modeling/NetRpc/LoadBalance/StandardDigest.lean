import NetRpc.Common.Padding
import NetRpc.Foundation.MessageDigest
import NetRpc.LoadBalance.WholeDigest

/-! # MD5 against the standard

`calculateBlock` never moves its words: the four operations of a turn name them
in turn instead. Its registers are those of the standard after every turn, and
so the digests differ only where `padding` and `genDigest` do.
-/

namespace NetRpc.MD5

def State.registers (state : State) : MessageDigest.Registers :=
  ⟨state.a, state.b, state.c, state.d⟩

open MessageDigest (sines)

/-- The table `T` has the sines of the standard. -/
theorem sines_eq {i : Nat} (inTable : i < 64) : sines i = T.getD i 0 := by
  have certified : ∀ i < 64, Sines.Certifies (i + 1) (T.getD i 0).toNat := by decide +kernel
  rw [sines, Sines.scaled_eq (by omega) (certified i inTable), UInt32.ofNat_toNat]

/-! ## Words of a block -/

/-- A byte that is shifted within its word. -/
theorem toNat_shiftLeft (byte : Byte) {places : UInt32} (few : places.toNat ≤ 24) :
    (byte.toUInt32 <<< places).toNat = byte.toNat <<< places.toNat := by
  have small := byte.toNat_lt
  have product : byte.toNat * 2 ^ places.toNat < 2 ^ 32 := by
    calc
      byte.toNat * 2 ^ places.toNat ≤ byte.toNat * 2 ^ 24 :=
        Nat.mul_le_mul_left _ (Nat.pow_le_pow_right (by decide) few)
      _ < 2 ^ 32 := by omega
  rw [UInt32.toNat_shiftLeft, UInt8.toNat_toUInt32, Nat.mod_eq_of_lt (by omega : _ < 32),
    Nat.shiftLeft_eq, Nat.mod_eq_of_lt product]

theorem or_reverse (first second third fourth : Nat) :
    first ||| second ||| third ||| fourth = fourth ||| third ||| second ||| first := by
  ac_rfl

theorem toNat_word (input : Bytes) (k : Nat) :
    (word input k).toNat =
      (input.getD (4 * k + 3) 0).toNat * 2 ^ 24 + (input.getD (4 * k + 2) 0).toNat * 2 ^ 16 +
        (input.getD (4 * k + 1) 0).toNat * 2 ^ 8 + (input.getD (4 * k) 0).toNat := by
  have second := toNat_shiftLeft (input.getD (4 * k + 1) 0) (by decide : (8 : UInt32).toNat ≤ 24)
  have third := toNat_shiftLeft (input.getD (4 * k + 2) 0) (by decide : (16 : UInt32).toNat ≤ 24)
  have fourth := toNat_shiftLeft (input.getD (4 * k + 3) 0) (by decide : (24 : UInt32).toNat ≤ 24)
  rw [word, UInt32.toNat_or, UInt32.toNat_or, UInt32.toNat_or, second, third, fourth,
    UInt8.toNat_toUInt32, or_reverse]
  exact ConsistentHashSelector.or_eq_sum (input.getD (4 * k + 2) 0).toNat_lt
    (input.getD (4 * k + 1) 0).toNat_lt (input.getD (4 * k) 0).toNat_lt

theorem take_drop_four {input : Bytes} {start : Nat} (whole : start + 4 ≤ input.length) :
    (input.drop start).take 4 = (List.range 4).map fun place => input.getD (start + place) 0 := by
  apply List.ext_getElem
  · rw [List.length_take, List.length_drop, List.length_map, List.length_range]
    omega
  · intro place inside _
    rw [List.getElem_take, List.getElem_drop, List.getElem_map, List.getElem_range,
      List.getD_eq_getElem?_getD, List.getElem?_eq_getElem, Option.getD_some]

theorem word_eq {input : Bytes} {k : Nat} (whole : 4 * k + 4 ≤ input.length) :
    word input k = MessageDigest.word input k := by
  have first := (input.getD (4 * k) 0).toNat_lt
  have second := (input.getD (4 * k + 1) 0).toNat_lt
  have third := (input.getD (4 * k + 2) 0).toNat_lt
  have fourth := (input.getD (4 * k + 3) 0).toNat_lt
  rw [MessageDigest.word, take_drop_four whole, ← UInt32.toNat_inj, toNat_word,
    MessageDigest.ofBytes, UInt32.toNat_ofNat']
  simp only [List.range_succ, List.range_zero, List.nil_append, List.cons_append, List.map_cons,
    List.map_nil, List.foldr_cons, List.foldr_nil, Nat.add_zero]
  omega

/-! ## One turn -/

/-- Row `i` of the tables. -/
structure Row (operation : UInt32 → UInt32 → UInt32 → UInt32) (i : Nat) : Prop where
  auxiliary : MessageDigest.auxiliary i = operation
  position : MessageDigest.position i = X.getD i 0
  amount : MessageDigest.amount i = (S.getD i 0).toNat
  constant : sines i = T.getD i 0
  positive : 0 < (S.getD i 0).toNat
  inside : (S.getD i 0).toNat < 32

theorem Row.of_auxiliary {operation : UInt32 → UInt32 → UInt32 → UInt32} {i : Nat}
    (inTable : i < 64) (auxiliary : MessageDigest.auxiliary i = operation) : Row operation i := by
  have tables : ∀ i < 64, MessageDigest.position i = X.getD i 0 ∧
      MessageDigest.amount i = (S.getD i 0).toNat ∧ 0 < (S.getD i 0).toNat ∧
        (S.getD i 0).toNat < 32 := by
    decide
  rcases tables i inTable with ⟨position, amount, positive, inside⟩
  exact ⟨auxiliary, position, amount, sines_eq inTable, positive, inside⟩

theorem row_F {i : Nat} (inRound : i < 16) : Row F i := by
  apply Row.of_auxiliary (by omega)
  funext x y z
  rw [MessageDigest.auxiliary, if_pos inRound, F]

theorem row_G {i : Nat} (atLeast : 16 ≤ i) (inRound : i < 32) : Row G i := by
  apply Row.of_auxiliary (by omega)
  funext x y z
  rw [MessageDigest.auxiliary, if_neg (by omega), if_pos inRound, G]

theorem row_H {i : Nat} (atLeast : 32 ≤ i) (inRound : i < 48) : Row H i := by
  apply Row.of_auxiliary (by omega)
  funext x y z
  rw [MessageDigest.auxiliary, if_neg (by omega), if_neg (by omega), if_pos inRound, H]

theorem row_I {i : Nat} (atLeast : 48 ≤ i) (inTable : i < 64) : Row I i := by
  apply Row.of_auxiliary inTable
  funext x y z
  rw [MessageDigest.auxiliary, if_neg (by omega), if_neg (by omega), if_neg (by omega), I]

/-- One operation is a step, up to the place of its result. -/
theorem step_eq {operation : UInt32 → UInt32 → UInt32 → UInt32} {i : Nat} (row : Row operation i)
    (x : Nat → UInt32) (a b c d : UInt32) :
    MessageDigest.step sines x ⟨a, b, c, d⟩ i =
      ⟨d, mix operation a b c d (x (X.getD i 0)) i, b, c⟩ := by
  rw [MessageDigest.step, mix, row.auxiliary, row.position, row.amount,
    MessageDigest.rotateLeft_eq row.positive row.inside, row.constant,
    UInt32.add_comm (operation b c d) a]

theorem turn_eq {operation : UInt32 → UInt32 → UInt32 → UInt32} {i : Nat}
    (rows : ∀ k < 4, Row operation (i + k)) (x : Nat → UInt32) (state : State) :
    (turn (mix operation) x state i).registers =
      MessageDigest.fourSteps (MessageDigest.step sines x) state.registers i := by
  have first : Row operation i := rows 0 (by decide)
  rw [MessageDigest.fourSteps, State.registers, State.registers]
  simp only [step_eq first, step_eq (rows 1 (by decide)), step_eq (rows 2 (by decide)),
    step_eq (rows 3 (by decide))]
  rfl

/-- A loop of turns, for the indices of its round. -/
theorem foldl_turn_eq {operation : UInt32 → UInt32 → UInt32 → UInt32} {indices : List Nat}
    (rows : ∀ i ∈ indices, ∀ k < 4, Row operation (i + k)) (x : Nat → UInt32) (state : State) :
    (indices.foldl (turn (mix operation) x) state).registers =
      indices.foldl (MessageDigest.fourSteps (MessageDigest.step sines x)) state.registers := by
  induction indices generalizing state with
  | nil => rfl
  | cons i indices induction =>
      rw [List.foldl_cons, List.foldl_cons, ← turn_eq (rows i List.mem_cons_self)]
      apply induction
      intro later member
      exact rows later (List.mem_cons_of_mem i member)

/-- The four loops of `calculateBlock`, one after another, are the sixty-four steps. -/
theorem loops_eq (x : Nat → UInt32) (state : State) :
    ([48, 52, 56, 60].foldl (turn II x) ([32, 36, 40, 44].foldl (turn HH x)
      ([16, 20, 24, 28].foldl (turn GG x) ([0, 4, 8, 12].foldl (turn FF x) state)))).registers =
        (List.range 64).foldl (MessageDigest.step sines x) state.registers := by
  have rowsF : ∀ i ∈ [0, 4, 8, 12], ∀ k < 4, Row F (i + k) := by
    intro i member k inside
    have most : ∀ i ∈ [0, 4, 8, 12], i ≤ 12 := by decide
    exact row_F (Nat.add_lt_add_of_le_of_lt (most i member) inside)
  have rowsG : ∀ i ∈ [16, 20, 24, 28], ∀ k < 4, Row G (i + k) := by
    intro i member k inside
    have bounds : ∀ i ∈ [16, 20, 24, 28], 16 ≤ i ∧ i ≤ 28 := by decide
    have bound := bounds i member
    exact row_G (by omega) (by omega)
  have rowsH : ∀ i ∈ [32, 36, 40, 44], ∀ k < 4, Row H (i + k) := by
    intro i member k inside
    have bounds : ∀ i ∈ [32, 36, 40, 44], 32 ≤ i ∧ i ≤ 44 := by decide
    have bound := bounds i member
    exact row_H (by omega) (by omega)
  have rowsI : ∀ i ∈ [48, 52, 56, 60], ∀ k < 4, Row I (i + k) := by
    intro i member k inside
    have bounds : ∀ i ∈ [48, 52, 56, 60], 48 ≤ i ∧ i ≤ 60 := by decide
    have bound := bounds i member
    exact row_I (by omega) (by omega)
  have indices : (List.range 16).map (4 * ·) =
      [0, 4, 8, 12] ++ [16, 20, 24, 28] ++ [32, 36, 40, 44] ++ [48, 52, 56, 60] := by
    decide
  have steps := MessageDigest.foldl_range_four_mul (MessageDigest.step sines x)
    state.registers 16
  rw [indices, List.foldl_append, List.foldl_append, List.foldl_append, ← foldl_turn_eq rowsF,
    ← foldl_turn_eq rowsG, ← foldl_turn_eq rowsH, ← foldl_turn_eq rowsI] at steps
  exact steps.symm

/-- A block of the standard is a whole one. -/
theorem calculateBlock_eq {block : Bytes} (whole : block.length = 64) (state : State) :
    (calculateBlock state block).registers =
      MessageDigest.compress sines state.registers block := by
  have same : ∀ k < 16, word block k = MessageDigest.word block k := by
    intro k inside
    exact word_eq (by omega)
  have mixed := loops_eq (MessageDigest.word block) state
  rw [← turn_congr same FF, ← turn_congr same GG, ← turn_congr same HH, ← turn_congr same II]
    at mixed
  rw [MessageDigest.compress, ← mixed, calculateBlock]
  rfl

theorem foldl_calculateBlock_eq {blocks : List Bytes} (whole : ∀ block ∈ blocks, block.length = 64)
    (state : State) :
    (blocks.foldl calculateBlock state).registers =
      blocks.foldl (MessageDigest.compress sines) state.registers := by
  induction blocks generalizing state with
  | nil => rfl
  | cons block blocks induction =>
      rw [List.foldl_cons, List.foldl_cons, ← calculateBlock_eq (whole block List.mem_cons_self)]
      apply induction
      intro later member
      exact whole later (List.mem_cons_of_mem block member)

/-! ## Whole texts -/

theorem blocks_eq {data : Bytes} (whole : data.length % 64 = 0) :
    blocks data = MessageDigest.blocks data := by
  rw [blocks, MessageDigest.blocks, (by omega : (data.length + 63) / 64 = data.length / 64)]

theorem padding_eq_pad {src : Bytes} (inside : src.length < 2 ^ 28 - 7)
    (notShort : src.length % 64 ≠ 56) : padding src = MessageDigest.pad src := by
  have least : LeastZeros (src.length + 1) ((119 - src.length % 64) % 64) := by
    constructor
    · omega
    · intro fewer before
      omega
  have padded := padding_of_lt least (by omega) notShort
  rw [padded, MessageDigest.pad, lengthBytes]

/-- Where the padding is that of the standard, so are the registers at the end. -/
theorem finalState_eq {src : Bytes} (inside : src.length < 2 ^ 28 - 7)
    (notShort : src.length % 64 ≠ 56) :
    (finalState src).registers = MessageDigest.registers sines src := by
  have follows := FollowsStandard.of_lt inside notShort
  rw [finalState, compute_eq_blocks, foldl_calculateBlock_eq follows.wholeBlocks,
    blocks_eq follows.whole, padding_eq_pad inside notShort]
  rfl

theorem words_eq {src : Bytes} (inside : src.length < 2 ^ 28 - 7)
    (notShort : src.length % 64 ≠ 56) :
    (finalState src).words = (MessageDigest.registers sines src).words := by
  rw [← finalState_eq inside notShort]
  rfl

/-! ## Zeros at the top -/

theorem rdropWhile_cons (byte : Byte) (rest : Bytes) :
    (byte :: rest).rdropWhile (· == 0) =
      if rest.rdropWhile (· == 0) = [] ∧ byte = 0 then []
      else byte :: rest.rdropWhile (· == 0) := by
  rw [List.rdropWhile, List.rdropWhile, List.reverse_cons, List.dropWhile_append]
  by_cases none : rest.reverse.dropWhile (· == 0) = []
  · by_cases zero : byte = 0 <;> simp [none, zero]
  · simp [none]

theorem pushBytes_eq_nil_iff {turns : Nat} {n : UInt32} (fits : n.toNat < 256 ^ turns) :
    pushBytes turns n = [] ↔ n = 0 := by
  cases turns with
  | zero =>
      have zero : n = 0 := by
        rw [← UInt32.toNat_inj]
        simpa using fits
      exact iff_of_true rfl zero
  | succ turns =>
      rw [pushBytes]
      split
      case isTrue zero => exact iff_of_true rfl zero
      case isFalse some => exact iff_of_false (List.cons_ne_nil _ _) some

theorem eq_zero_iff (n : UInt32) : n = 0 ↔ n >>> 8 = 0 ∧ byteOf n 0 = 0 := by
  have byte : (byteOf n 0).toNat = n.toNat % 2 ^ 8 := by
    rw [byteOf, UInt8.toNat_ofNat', Nat.pow_zero, Nat.div_one]
  have zero : (0 : UInt32).toNat = 0 ∧ (0 : UInt8).toNat = 0 := ⟨rfl, rfl⟩
  rw [← UInt32.toNat_inj, ← UInt32.toNat_inj, ← UInt8.toNat_inj, byte, toNat_shiftRight_eight,
    zero.1, zero.2]
  omega

/-- The loop pushes the bytes of a word without the zeros at its top. -/
theorem pushBytes_eq_rdropWhile (turns : Nat) {n : UInt32} (fits : n.toNat < 256 ^ turns) :
    pushBytes turns n = ((List.range turns).map (byteOf n)).rdropWhile (· == 0) := by
  induction turns generalizing n with
  | zero => rfl
  | succ turns induction =>
      have smaller : (n >>> 8).toNat < 256 ^ turns := by
        rw [toNat_shiftRight_eight, Nat.div_lt_iff_lt_mul (by decide)]
        exact fits
      have bytes : (List.range (turns + 1)).map (byteOf n) =
          byteOf n 0 :: (List.range turns).map (byteOf (n >>> 8)) := by
        rw [List.range_succ_eq_map, List.map_cons, List.map_map]
        congr 1
        apply List.map_congr_left
        intro b _
        exact (byteOf_shiftRight n b).symm
      rw [bytes, rdropWhile_cons, ← induction smaller, pushBytes, lowByte_eq_byteOf]
      simp only [pushBytes_eq_nil_iff smaller, ← eq_zero_iff]

/-- What `digest` returns, for a text whose padding is that of the standard. -/
theorem digest_eq_flatMap {src : Bytes} (inside : src.length < 2 ^ 28 - 7)
    (notShort : src.length % 64 ≠ 56) :
    digest src = (MessageDigest.registers sines src).words.flatMap fun word =>
      (MessageDigest.toBytes word).rdropWhile (· == 0) := by
  rw [digest, genDigest, words_eq inside notShort]
  apply List.flatMap_congr
  intro word _
  exact pushBytes_eq_rdropWhile 4 word.toNat_lt

theorem digest_length (src : Bytes) : (MessageDigest.digest sines src).length = 16 := by
  rw [MessageDigest.digest, MessageDigest.Registers.words]
  rfl

/-- `digest` is the digest of the standard without the zeros at the top of its
words, and so it is the digest of the standard exactly if there are none. -/
theorem digest_eq_standard {src : Bytes} (inside : src.length < 2 ^ 28 - 7)
    (notShort : src.length % 64 ≠ 56) :
    digest src = ((MessageDigest.registers sines src).words.flatMap fun word =>
        (MessageDigest.toBytes word).rdropWhile (· == 0)) ∧
      (digest src = MessageDigest.digest sines src ↔
        ∀ word ∈ (MessageDigest.registers sines src).words, 2 ^ 24 ≤ word.toNat) := by
  have words := words_eq inside notShort
  constructor
  · exact digest_eq_flatMap inside notShort
  · constructor
    · intro same
      have length := digest_length src
      rw [← same, digest, genDigest_length_eq_sixteen_iff, words] at length
      exact length
    · intro large
      rw [← words] at large
      rw [digest, genDigest_of_le large, words]
      rfl

theorem digest_eq_standard_abc :
    digest (ascii "abc") =
        ((MessageDigest.registers sines (ascii "abc")).words.flatMap fun word =>
          (MessageDigest.toBytes word).rdropWhile (· == 0)) ∧
      (digest (ascii "abc") = MessageDigest.digest sines (ascii "abc") ↔
        ∀ word ∈ (MessageDigest.registers sines (ascii "abc")).words, 2 ^ 24 ≤ word.toNat) :=
  digest_eq_standard (by decide) (by decide)

end NetRpc.MD5
