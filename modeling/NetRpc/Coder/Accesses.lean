import NetRpc.Coder.Decode

/-! # The single accesses of the decoder

For each operation of the decoder: the value it yields when its access is
legal, and what it takes for the access to stay inside a region.
-/

namespace NetRpc.TinyPBCoder

open Traced

variable {tmp : Bytes}

/-! ## Values -/

theorem readChar_yields {index : Int} (lower : 0 ≤ index) (upper : index < tmp.length) :
    (readChar tmp index).Yields (tmp.getD index.toNat 0) := by
  have legal : Legal tmp (.read index 1) := by
    simp only [Access.Inside, storageRegion]
    omega
  exact (yields_touch legal).bind (yields_pure _)

theorem readInt32_yields {index : Int} (lower : 0 ≤ index)
    (upper : index + 4 ≤ tmp.length) :
    (readInt32 tmp index).Yields (int32At tmp index) := by
  have legal : Legal tmp (.read index 4) := by
    simp only [Access.Inside, storageRegion]
    omega
  exact (yields_touch legal).bind (yields_pure _)

theorem addInt_yields {left right sum : Int} (equal : left + right = sum)
    (fits : InIntRange sum) : (addInt tmp left right).Yields sum := by
  have legal : Legal tmp (.arith (left + right)) := equal ▸ fits
  rw [← equal]
  exact (yields_touch legal).bind (yields_pure _)

theorem addSize_yields {index sum : Int} {size : Nat} (equal : index + size = sum)
    (fits : InIntRange sum) : (addSize tmp index size).Yields sum := by
  have unchanged : toInt sum = sum :=
    Int.bmod_eq_of_le (by simpa using fits.1) (by simpa using fits.2)
  rw [addSize, equal, unchanged]
  exact yields_pure _

theorem copyString_yields {capacity : Nat} {index length : Int}
    (copyLegal : Legal tmp (.copy capacity index length))
    (terminated : (cString (copied capacity tmp index length)).length < capacity) :
    (copyString capacity tmp index length).Yields
      (cString (copied capacity tmp index length)) := by
  have terminatorLegal : Legal tmp (.terminator capacity
    (cString (copied capacity tmp index length)).length) := terminated
  exact (yields_touch copyLegal).bind ((yields_touch terminatorLegal).bind (yields_pure _))

/-! ## Regions -/

section Within

variable {region : Region} {α : Type}

theorem legal_of_inside (inStorage : region.upper ≤ tmp.length) (access : Access)
    (inside : access.Inside region) : Legal tmp access := by
  cases access <;> simp only [Access.Inside, storageRegion] at inside ⊢ <;> omega

/-- A parse error ends the pass without a further access. -/
theorem within_check (endIndex index : Int) (value : α) (rest : Traced (Legal tmp) α) :
    (if endIndex ≤ index then pure value else rest).Within (Access.Inside region) ↔
      (index < endIndex → rest.Within (Access.Inside region)) := by
  rw [within_ite, Int.not_le]
  exact and_iff_right fun _ => within_pure _ value

theorem within_choice (condition : Prop) [Decidable condition] (whenTrue whenFalse : α) :
    (if condition then pure whenTrue else pure whenFalse : Traced (Legal tmp) α).Within
      (Access.Inside region) := by
  rw [within_ite]
  exact ⟨fun _ => within_pure _ _, fun _ => within_pure _ _⟩

variable (inStorage : region.upper ≤ tmp.length)

include inStorage

theorem within_readChar_bind (index : Int) (next : Byte → Traced (Legal tmp) α) :
    (readChar tmp index >>= next).Within (Access.Inside region) ↔
      (region.lower ≤ index ∧ index + 1 ≤ region.upper) ∧
        (next (tmp.getD index.toNat 0)).Within (Access.Inside region) := by
  have sound := legal_of_inside inStorage
  rw [readChar, within_bind_of_yields next (yields_of_within sound _),
    within_touch_bind sound]
  simp [Access.Inside]

theorem within_readInt32_bind (index : Int) (next : Int32 → Traced (Legal tmp) α) :
    (readInt32 tmp index >>= next).Within (Access.Inside region) ↔
      (region.lower ≤ index ∧ index + 4 ≤ region.upper) ∧
        (next (int32At tmp index)).Within (Access.Inside region) := by
  have sound := legal_of_inside inStorage
  rw [readInt32, within_bind_of_yields next (yields_of_within sound _),
    within_touch_bind sound]
  simp [Access.Inside]

theorem within_addInt_bind (left right : Int) (next : Int → Traced (Legal tmp) α) :
    (addInt tmp left right >>= next).Within (Access.Inside region) ↔
      InIntRange (left + right) ∧
        (next (left + right)).Within (Access.Inside region) := by
  have sound := legal_of_inside inStorage
  rw [addInt, within_bind_of_yields next (yields_of_within sound _),
    within_touch_bind sound]
  simp [Access.Inside]

omit inStorage in
theorem within_addSize_bind {index sum : Int} {size : Nat} (equal : index + size = sum)
    (fits : InIntRange sum) (next : Int → Traced (Legal tmp) α) :
    (addSize tmp index size >>= next).Within (Access.Inside region) ↔
      (next sum).Within (Access.Inside region) := by
  rw [within_bind_of_yields next fun _ => addSize_yields equal fits]
  exact and_iff_right (within_pure _ _)

theorem within_copyString (capacity : Nat) (index length : Int) :
    (copyString capacity tmp index length).Within (Access.Inside region) ↔
      (0 ≤ length ∧ length + region.slack ≤ capacity ∧
        region.lower ≤ index ∧ index + length ≤ region.upper) ∧
      (cString (copied capacity tmp index length)).length < capacity := by
  have sound := legal_of_inside inStorage
  rw [copyString, within_touch_bind sound, within_touch_bind sound]
  simp [Access.Inside]

theorem within_copyString_bind (capacity : Nat) (index length : Int)
    (next : Bytes → Traced (Legal tmp) α) :
    (copyString capacity tmp index length >>= next).Within (Access.Inside region) ↔
      ((0 ≤ length ∧ length + region.slack ≤ capacity ∧
        region.lower ≤ index ∧ index + length ≤ region.upper) ∧
      (cString (copied capacity tmp index length)).length < capacity) ∧
      (next (cString (copied capacity tmp index length))).Within
        (Access.Inside region) := by
  rw [within_bind_of_yields next, within_copyString inStorage]
  intro within
  rw [within_copyString inStorage] at within
  exact copyString_yields (legal_of_inside inStorage _ within.1) within.2

end Within

end NetRpc.TinyPBCoder
