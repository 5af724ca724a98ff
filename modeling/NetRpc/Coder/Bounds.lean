import NetRpc.Coder.Pass

/-! # Where the decoder reads

Between the cursors stand the bytes that have been received. The decoder stays
among them, and inside its local arrays, exactly when the lengths it finds
there fit.
-/

namespace NetRpc.TinyPBCoder

/-- The received bytes. The last byte of a local array is left for the NUL. -/
def readableRegion (buffer : TcpBuffer) : Region where
  lower := buffer.readIndex
  upper := buffer.writeIndex
  slack := 1

theorem readableRegion_covers {buffer : TcpBuffer} (valid : buffer.Valid) :
    (readableRegion buffer).Covers buffer where
  lowerLe := Nat.le_refl _
  upperGe := Nat.le_refl _
  upperLe := valid.writeLeSize
  fitsInt := valid.sizeFitsInt

/-- Every access of a whole call is inside the received bytes exactly when, in
every pass, the lengths fit them. -/
theorem decode_in_bounds_iff {initial : TcpBuffer} (spare : initial.Spare) :
    (∀ buffer, Loop.Reaches body initial buffer →
      ∀ access ∈ (iteration buffer).accesses, access.Inside (readableRegion buffer)) ↔
    ∀ buffer, Loop.Reaches body initial buffer →
      LengthsFit (readableRegion buffer) buffer := by
  apply forall_congr'
  intro buffer
  apply imp_congr_right
  intro reaches
  have valid := (reaches_spare spare reaches).toValid
  exact within_iteration valid (readableRegion_covers valid)

theorem twoFrames_in_bounds :
    twoFrames.Spare ∧
      ∀ buffer, Loop.Reaches body twoFrames buffer →
        ∀ access ∈ (iteration buffer).accesses, access.Inside (readableRegion buffer) := by
  refine ⟨twoFrames_spare, (decode_in_bounds_iff twoFrames_spare).mpr fun buffer reaches => ?_⟩
  have valid := (reaches_spare twoFrames_spare reaches).toValid
  rcases twoFrames_reaches reaches with ⟨passes, few, rfl⟩
  have inside : ∀ passes < 3, ∀ access ∈ (iteration (twoFramesAfter passes)).accesses,
      access.Inside (readableRegion (twoFramesAfter passes)) := by
    decide +kernel
  exact (within_iteration valid (readableRegion_covers valid)).mp (inside passes few)

/-- Five received bytes that declare a packet length of -256. -/
def negativeLength : TcpBuffer where
  readIndex := 0
  writeIndex := 5
  buffer := [0x02, 0xff, 0xff, 0xff, 0x00] ++ List.replicate 123 0

/-- The end marker is looked for 257 bytes in front of the storage. -/
theorem negativeLength_out_of_bounds :
    negativeLength.Spare ∧
      ¬∀ buffer, Loop.Reaches body negativeLength buffer →
        ∀ access ∈ (iteration buffer).accesses, access.Inside (readableRegion buffer) := by
  refine ⟨⟨⟨by decide +kernel, by decide +kernel, by decide +kernel⟩, by decide +kernel⟩,
    fun inBounds => ?_⟩
  have attempted : Access.read (-257) 1 ∈ (iteration negativeLength).accesses := by
    decide +kernel
  have inside := (inBounds negativeLength .refl _ attempted).2.1
  exact absurd inside (by decide)

end NetRpc.TinyPBCoder
