import NetRpc.Common.MD5
import NetRpc.LoadBalance.Strategy

/-! # Digests for the ring

The ring takes four words from a digest of sixteen bytes. `genDigest` writes
each state word without the zero bytes at its top, so that a digest can be
shorter, with the bytes behind the gap out of their places.
-/

namespace NetRpc

namespace MD5

/-! ## The bytes of one word -/

/-- Byte `b` of a word, counted from the least significant one. -/
def byteOf (n : UInt32) (b : Nat) : Byte :=
  UInt8.ofNat (n.toNat / 256 ^ b)

theorem byteOf_shiftRight (n : UInt32) (b : Nat) : byteOf (n >>> 8) b = byteOf n (b + 1) := by
  rw [byteOf, byteOf, toNat_shiftRight_eight, Nat.div_div_eq_div_mul, Nat.pow_succ, Nat.mul_comm]

theorem lowByte_eq_byteOf (n : UInt32) : (n &&& 0xFF).toUInt8 = byteOf n 0 := by
  rw [← UInt8.toNat_inj, byteOf, UInt32.toNat_toUInt8, UInt32.toNat_and, UInt8.toNat_ofNat',
    Nat.pow_zero, Nat.div_one]
  have masked : n.toNat &&& (255 : UInt32).toNat = n.toNat % 2 ^ 8 :=
    Nat.and_two_pow_sub_one_eq_mod n.toNat 8
  rw [masked, Nat.mod_mod]

theorem pushBytes_length_le (turns : Nat) (n : UInt32) : (pushBytes turns n).length ≤ turns := by
  induction turns generalizing n with
  | zero => exact Nat.le_refl 0
  | succ turns induction =>
      rw [pushBytes]
      split
      · exact Nat.zero_le _
      · exact Nat.succ_le_succ (induction _)

/-- Every turn pushes its byte if the word is large enough. -/
theorem pushBytes_of_le {turns : Nat} {n : UInt32} (large : 256 ^ turns ≤ n.toNat) :
    pushBytes (turns + 1) n = (List.range (turns + 1)).map (byteOf n) := by
  have nonzero : n ≠ 0 := by
    rintro rfl
    have positive : 0 < 256 ^ turns := Nat.pow_pos (by decide)
    exact absurd large (Nat.not_le.mpr positive)
  rw [pushBytes, if_neg nonzero, lowByte_eq_byteOf]
  induction turns generalizing n with
  | zero => rfl
  | succ turns induction =>
      have largeRest : 256 ^ turns ≤ (n >>> 8).toNat := by
        rw [toNat_shiftRight_eight, Nat.le_div_iff_mul_le (by decide), ← Nat.pow_succ]
        exact large
      have nonzeroRest : n >>> 8 ≠ 0 := by
        intro zero
        have positive : 0 < 256 ^ turns := Nat.pow_pos (by decide)
        rw [zero] at largeRest
        exact absurd largeRest (Nat.not_le.mpr positive)
      have split : List.range (turns + 1 + 1) = 0 :: (List.range (turns + 1)).map Nat.succ :=
        List.range_succ_eq_map
      rw [pushBytes, if_neg nonzeroRest, lowByte_eq_byteOf, induction largeRest nonzeroRest,
        split, List.map_cons, List.map_map]
      congr 1
      apply List.map_congr_left
      intro b _
      exact byteOf_shiftRight n b

/-- Some turn finds nothing left of a word that is not. -/
theorem pushBytes_length_of_lt {turns : Nat} {n : UInt32} (small : n.toNat < 256 ^ turns) :
    (pushBytes (turns + 1) n).length < turns + 1 := by
  rw [Nat.add_comm turns 1, Nat.add_comm 1 turns, pushBytes_add 1 small]
  exact Nat.lt_succ_of_le (pushBytes_length_le turns n)

/-- The loop pushes four bytes exactly if the top byte of the word is not zero. -/
theorem pushBytes_length_eq_four_iff (n : UInt32) :
    (pushBytes 4 n).length = 4 ↔ 2 ^ 24 ≤ n.toNat := by
  constructor
  · intro whole
    by_contra small
    have short : (pushBytes 4 n).length < 4 := pushBytes_length_of_lt (Nat.lt_of_not_le small)
    omega
  · intro large
    have bytes : pushBytes 4 n = (List.range 4).map (byteOf n) := pushBytes_of_le large
    rw [bytes, List.length_map, List.length_range]

theorem genDigest_length_eq_sixteen_iff (state : State) :
    (genDigest state).length = 16 ↔ ∀ word ∈ state.words, 2 ^ 24 ≤ word.toNat := by
  have length : (genDigest state).length =
      (pushBytes 4 state.a).length + (pushBytes 4 state.b).length +
        (pushBytes 4 state.c).length + (pushBytes 4 state.d).length := by
    simp [genDigest, State.words, Nat.add_assoc]
  have shortA := pushBytes_length_le 4 state.a
  have shortB := pushBytes_length_le 4 state.b
  have shortC := pushBytes_length_le 4 state.c
  have shortD := pushBytes_length_le 4 state.d
  simp only [State.words, List.forall_mem_cons, List.not_mem_nil, false_imp_iff,
    implies_true, and_true, ← pushBytes_length_eq_four_iff]
  omega

theorem genDigest_of_le {state : State} (large : ∀ word ∈ state.words, 2 ^ 24 ≤ word.toNat) :
    genDigest state = state.words.flatMap fun word => (List.range 4).map (byteOf word) := by
  apply List.flatMap_congr
  intro word member
  exact pushBytes_of_le (large word member)

end MD5

namespace ConsistentHashSelector

/-- `hash` of the bytes that `md5` returns. The result is `none` where it reads
behind them. -/
def hashOfBytes (digest : Bytes) (number : Nat) : Option Nat := do
  let fourth ← digest[3 + number * 4]?
  let third ← digest[2 + number * 4]?
  let second ← digest[1 + number * 4]?
  let first ← digest[number * 4]?
  some ((fourth.toNat <<< 24 ||| third.toNat <<< 16 ||| second.toNat <<< 8 ||| first.toNat) &&&
    0xFFFFFFFF)

/-- On sixteen bytes it is the `hash` that the ring is modelled with. -/
theorem hashOfBytes_digest (digest : Digest) {number : Nat} (bounded : number < 4) :
    hashOfBytes digest.val number = some (hash digest number) := by
  have length := digest.property
  have byte : ∀ i < 16, digest.val[i]? = some (digest.val.getD i 0) := by
    intro i inside
    rw [List.getD_eq_getElem?_getD, List.getElem?_eq_getElem (by omega), Option.getD_some]
  rw [hashOfBytes, byte _ (by omega), byte _ (by omega), byte _ (by omega), byte _ (by omega)]
  rfl

theorem shiftLeft_or_byte (high : Nat) {low : Nat} (byte : low < 2 ^ 8) (places : Nat) :
    high <<< (8 + places) ||| low <<< places = (high * 2 ^ 8 + low) <<< places := by
  rw [Nat.shiftLeft_add, ← Nat.shiftLeft_or_distrib, ← Nat.shiftLeft_add_eq_or_of_lt byte,
    Nat.shiftLeft_eq high]

theorem or_eq_sum {fourth third second first : Nat} (thirdByte : third < 2 ^ 8)
    (secondByte : second < 2 ^ 8) (firstByte : first < 2 ^ 8) :
    fourth <<< 24 ||| third <<< 16 ||| second <<< 8 ||| first =
      fourth * 2 ^ 24 + third * 2 ^ 16 + second * 2 ^ 8 + first := by
  have upper : fourth <<< 24 ||| third <<< 16 = (fourth * 2 ^ 8 + third) <<< 16 :=
    shiftLeft_or_byte fourth thirdByte 16
  have middle : (fourth * 2 ^ 8 + third) <<< 16 ||| second <<< 8 =
      ((fourth * 2 ^ 8 + third) * 2 ^ 8 + second) <<< 8 :=
    shiftLeft_or_byte _ secondByte 8
  rw [upper, middle, ← Nat.shiftLeft_add_eq_or_of_lt firstByte, Nat.shiftLeft_eq]
  omega

/-- The four bytes of a word make up the word. -/
theorem assemble_bytes (n : UInt32) :
    ((MD5.byteOf n 3).toNat <<< 24 ||| (MD5.byteOf n 2).toNat <<< 16 |||
      (MD5.byteOf n 1).toNat <<< 8 ||| (MD5.byteOf n 0).toNat) &&& 0xFFFFFFFF = n.toNat := by
  have bounded := n.toNat_lt
  have byte : ∀ b, (MD5.byteOf n b).toNat = n.toNat / 256 ^ b % 2 ^ 8 := fun b => rfl
  have mask : (0xFFFFFFFF : Nat) = 2 ^ 32 - 1 := rfl
  rw [or_eq_sum (MD5.byteOf n 2).toNat_lt (MD5.byteOf n 1).toNat_lt (MD5.byteOf n 0).toNat_lt,
    mask, Nat.and_two_pow_sub_one_eq_mod, byte, byte, byte, byte]
  omega

/-- What the ring expects of the digest of `key`. -/
structure Whole (key : Bytes) : Prop where
  length : (MD5.digest key).length = 16
  byte : ∀ h < 4, ∀ b < 4, (MD5.digest key)[4 * h + b]? =
    some (MD5.byteOf ((MD5.finalState key).words.getD h 0) b)
  word : ∀ h < 4, hashOfBytes (MD5.digest key) h =
    some ((MD5.finalState key).words.getD h 0).toNat

/-- A digest is whole exactly if no state word has a zero byte at its top. -/
theorem whole_iff (key : Bytes) :
    Whole key ↔ ∀ word ∈ (MD5.finalState key).words, 2 ^ 24 ≤ word.toNat := by
  constructor
  · intro whole
    exact (MD5.genDigest_length_eq_sixteen_iff _).mp whole.length
  · intro large
    have digest := MD5.genDigest_of_le large
    have byte : ∀ h < 4, ∀ b < 4, (MD5.digest key)[4 * h + b]? =
        some (MD5.byteOf ((MD5.finalState key).words.getD h 0) b) := by
      intro h hBounded b bBounded
      rw [MD5.digest, digest]
      match h, b with
      | 0, 0 | 0, 1 | 0, 2 | 0, 3 | 1, 0 | 1, 1 | 1, 2 | 1, 3 => rfl
      | 2, 0 | 2, 1 | 2, 2 | 2, 3 | 3, 0 | 3, 1 | 3, 2 | 3, 3 => rfl
    refine ⟨(MD5.genDigest_length_eq_sixteen_iff _).mpr large, byte, ?_⟩
    intro h bounded
    have placed : ∀ b < 4, (MD5.digest key)[b + h * 4]? =
        some (MD5.byteOf ((MD5.finalState key).words.getD h 0) b) := by
      intro b bBounded
      rw [Nat.add_comm, Nat.mul_comm]
      exact byte h bounded b bBounded
    have lowest := placed 0 (by omega)
    rw [Nat.zero_add] at lowest
    rw [hashOfBytes, placed 3 (by omega), placed 2 (by omega), placed 1 (by omega), lowest]
    exact congrArg some (assemble_bytes _)

/-- The text of a virtual node whose digest has fifteen bytes. -/
def shortText : Bytes :=
  ascii "127.0.0.1:39999" ++ ascii (toString 1)

/-- Word 1 is read out of place, and word 3 beyond the end. -/
theorem not_whole_shortText :
    ¬Whole shortText ∧ (MD5.digest shortText).length = 15 ∧
      hashOfBytes (MD5.digest shortText) 1 ≠
        some ((MD5.finalState shortText).words.getD 1 0).toNat ∧
      hashOfBytes (MD5.digest shortText) 3 = none := by
  have observed : (MD5.digest shortText).length = 15 ∧
      hashOfBytes (MD5.digest shortText) 1 ≠
        some ((MD5.finalState shortText).words.getD 1 0).toNat ∧
      hashOfBytes (MD5.digest shortText) 3 = none := by
    decide +kernel
  refine ⟨?_, observed⟩
  intro whole
  rw [whole.length] at observed
  exact absurd observed.1 (by decide)

end ConsistentHashSelector

end NetRpc
