import NetRpc.Coder.Lengths

/-! # One pass over arbitrary bytes

What one pass of the outer loop does to a buffer of any content, and when it
stays inside a region of the storage.
-/

namespace NetRpc.TinyPBCoder

open TinyPBProtocol Traced

/-- The candidate that the scan accepts at `i`. -/
def candidateAt (tmp : Bytes) (i : Nat) : Candidate where
  startIndex := i
  endIndex := endAt tmp i
  pkLen := int32At tmp (i + 1)

/-! ## The scan -/

section ComesTo

variable {tmp : Bytes} {writeIndex start i : Nat}

theorem comesTo_self (tmp : Bytes) (writeIndex start : Nat) :
    ComesTo tmp writeIndex start start :=
  ⟨Nat.le_refl start, fun _ above below => absurd below (Nat.not_lt.mpr above)⟩

theorem comesTo_succ_iff (rejected : ¬Accepts tmp writeIndex start) (later : start < i) :
    ComesTo tmp writeIndex (start + 1) i ↔ ComesTo tmp writeIndex start i := by
  constructor
  · intro comes
    refine ⟨Nat.le_of_lt later, fun k above below => ?_⟩
    rcases Nat.eq_or_lt_of_le above with same | beyond
    · exact same ▸ rejected
    · exact comes.2 k beyond below
  · intro comes
    exact ⟨later, fun k above below => comes.2 k (Nat.le_of_lt above) below⟩

theorem ComesTo.unique {k : Nat} (comes : ComesTo tmp writeIndex start i)
    (accepts : Accepts tmp writeIndex i) (comesToo : ComesTo tmp writeIndex start k)
    (acceptsToo : Accepts tmp writeIndex k) : i = k := by
  rcases Nat.lt_trichotomy i k with before | same | behind
  · exact absurd accepts (comesToo.2 i comes.1 before)
  · exact same
  · exact absurd acceptsToo (comes.2 k comesToo.1 behind)

end ComesTo

section Scan

variable {tmp : Bytes} {region : Region} {writeIndex : Nat}

def probed (tmp : Bytes) (writeIndex i : Nat) : Option Candidate :=
  if Accepts tmp writeIndex i then some (candidateAt tmp i) else none

variable (inStorage : region.upper ≤ tmp.length) (readableInside : writeIndex ≤ region.upper)

include inStorage readableInside

theorem within_probe {i : Nat} (lower : region.lower ≤ i) (inReadable : i < writeIndex) :
    (probe tmp writeIndex i).Within (Access.Inside region) ↔
      (Marks tmp writeIndex i → ProbeFits region tmp writeIndex i) := by
  have last : (i : Int) + (int32At tmp (i + 1)).toInt + -1 = endAt tmp i := rfl
  have length : (int32At tmp (i + 1)).toInt = lengthAt tmp (i + 1) := rfl
  have inside : (region.lower : Int) ≤ i ∧ (i : Int) + 1 ≤ region.upper := by omega
  rw [probe, within_readChar_bind inStorage, and_iff_right inside, Int.toNat_natCast,
    within_ite, and_iff_left fun _ => within_pure _ _, within_ite,
    and_iff_left fun _ => within_pure _ _, Marks, and_imp]
  apply imp_congr_right
  intro _
  apply imp_congr_right
  intro _
  rw [within_readInt32_bind inStorage, within_addInt_bind inStorage,
    within_addInt_bind inStorage, within_check, last, length, ProbeFits,
    within_readChar_bind inStorage, and_iff_left (within_choice _ _ _), endAt]
  simp only [InIntRange]
  generalize lengthAt tmp (i + 1) = length
  omega

theorem probe_yields {i : Nat} (inReadable : i < writeIndex)
    (fits : Marks tmp writeIndex i → ProbeFits region tmp writeIndex i) :
    (probe tmp writeIndex i).Yields (probed tmp writeIndex i) := by
  have marker := @readChar_yields tmp i (by omega) (by omega)
  rw [Int.toNat_natCast] at marker
  apply marker.bind
  by_cases isStart : tmp.getD i 0 = pbStart
  · by_cases more : i + 1 < writeIndex
    · have marks : Marks tmp writeIndex i := ⟨isStart, more⟩
      rcases fits marks with ⟨lengthInside, above, below, endLower⟩
      have next : InIntRange (i + lengthAt tmp (i + 1)) := ⟨Int.le_of_lt above, below⟩
      have lastSum : i + lengthAt tmp (i + 1) + -1 = endAt tmp i := rfl
      have last : InIntRange (endAt tmp i) := by
        rw [endAt]
        generalize lengthAt tmp (i + 1) = length at above below
        constructor <;> omega
      rw [if_pos isStart, if_pos more]
      apply (readInt32_yields (by omega) (by omega)).bind
      apply (addInt_yields rfl next).bind
      apply (addInt_yields lastSum last).bind
      by_cases complete : endAt tmp i < writeIndex
      · have finish := @readChar_yields tmp (endAt tmp i)
          (Int.le_trans (Int.natCast_nonneg _) (endLower complete)) (by omega)
        rw [if_neg (Int.not_le.mpr complete)]
        apply finish.bind
        by_cases isEnd : tmp.getD (endAt tmp i).toNat 0 = pbEnd
        · rw [if_pos isEnd, probed, if_pos ⟨marks, complete, isEnd⟩]
          exact yields_pure _
        · rw [if_neg isEnd, probed, if_neg fun accepts => isEnd accepts.2.2]
          exact yields_pure _
      · rw [if_pos (Int.not_lt.mp complete), probed, if_neg fun accepts => complete accepts.2.1]
        exact yields_pure _
    · rw [if_pos isStart, if_neg more, probed, if_neg fun accepts => more accepts.1.2]
      exact yields_pure _
  · rw [if_neg isStart, probed, if_neg fun accepts => isStart accepts.1.1]
    exact yields_pure _

theorem within_scan : ∀ {remaining i : Nat}, region.lower ≤ i →
    i + remaining ≤ writeIndex →
    ((scan tmp writeIndex i remaining).Within (Access.Inside region) ↔
      ∀ k, ComesTo tmp writeIndex i k → k < i + remaining → Marks tmp writeIndex k →
        ProbeFits region tmp writeIndex k)
  | 0, i, _, _ => by
      refine iff_of_true (within_pure _ _) fun k comes below => ?_
      exact absurd below (Nat.not_lt.mpr comes.1)
  | remaining + 1, i, lower, inReadable => by
      have here := @within_probe _ _ _ inStorage readableInside i lower (by omega)
      have later := @within_scan remaining (i + 1) (by omega) (by omega)
      rw [scan, within_bind, here]
      constructor
      · intro both k comes below
        have found := probe_yields inStorage readableInside (by omega) both.1
        rcases Nat.eq_or_lt_of_le comes.1 with same | beyond
        · exact same ▸ both.1
        · have rejected := comes.2 i (Nat.le_refl i) beyond
          rw [probed, if_neg rejected] at found
          have rest := later.mp (both.2 none found)
          exact rest k ((comesTo_succ_iff rejected beyond).mpr comes) (by omega)
      · intro all
        have fitsHere := all i (comesTo_self _ _ _) (by omega)
        refine ⟨fitsHere, fun value yields => ?_⟩
        have found := probe_yields inStorage readableInside (by omega) fitsHere
        rw [yields.unique found, probed]
        by_cases accepts : Accepts tmp writeIndex i
        · rw [if_pos accepts]
          exact within_pure _ _
        · rw [if_neg accepts]
          apply later.mpr
          intro k comes below
          exact all k ((comesTo_succ_iff accepts comes.1).mp comes) (by omega)

/-- The scan stops at the first position that it accepts. -/
theorem scan_yields : ∀ {remaining i : Nat}, region.lower ≤ i →
    i + remaining ≤ writeIndex →
    (∀ k, ComesTo tmp writeIndex i k → k < i + remaining → Marks tmp writeIndex k →
      ProbeFits region tmp writeIndex k) →
    (∃ k, ComesTo tmp writeIndex i k ∧ k < i + remaining ∧ Accepts tmp writeIndex k ∧
      (scan tmp writeIndex i remaining).Yields (some (candidateAt tmp k))) ∨
    (ComesTo tmp writeIndex i (i + remaining) ∧
      (scan tmp writeIndex i remaining).Yields none)
  | 0, i, _, _, _ => .inr ⟨comesTo_self _ _ _, yields_pure _⟩
  | remaining + 1, i, lower, inReadable, fits => by
      have found := probe_yields inStorage readableInside (by omega)
        (fits i (comesTo_self _ _ _) (by omega))
      by_cases accepts : Accepts tmp writeIndex i
      · rw [probed, if_pos accepts] at found
        exact .inl ⟨i, comesTo_self _ _ _, by omega, accepts, found.bind (yields_pure _)⟩
      · rw [probed, if_neg accepts] at found
        have fitsLater : ∀ k, ComesTo tmp writeIndex (i + 1) k → k < i + 1 + remaining →
            Marks tmp writeIndex k → ProbeFits region tmp writeIndex k := by
          intro k comes below
          exact fits k ((comesTo_succ_iff accepts comes.1).mp comes) (by omega)
        rcases @scan_yields remaining (i + 1) (by omega) (by omega) fitsLater with
          ⟨k, comes, below, acceptsLater, yields⟩ | ⟨comes, yields⟩
        · exact .inl ⟨k, (comesTo_succ_iff accepts comes.1).mp comes, by omega, acceptsLater,
            found.bind yields⟩
        · have target : i + 1 + remaining = i + (remaining + 1) := by omega
          rw [target] at comes
          exact .inr ⟨(comesTo_succ_iff accepts (by omega)).mp comes, found.bind yields⟩

end Scan

/-! ## The pass -/

section Iteration

variable {buffer : TcpBuffer} {region : Region}

theorem takeCandidate_moved (buffer : TcpBuffer) (i : Nat) :
    buffer.moveReadIndex ((candidateAt buffer.buffer i).endIndex -
        (candidateAt buffer.buffer i).startIndex + 1) =
      buffer.moveReadIndex (lengthAt buffer.buffer (i + 1)) := by
  congr 1
  simp only [candidateAt, endAt]
  generalize lengthAt buffer.buffer (i + 1) = length
  omega

theorem within_takeCandidate (covers : region.Covers buffer) {i : Nat}
    (lower : buffer.readIndex ≤ i) (lengthInside : i + 5 ≤ region.upper) :
    (takeCandidate buffer (candidateAt buffer.buffer i)).Within (Access.Inside region) ↔
      FieldsFit region buffer.buffer i := by
  have regionLower := Nat.le_trans covers.lowerLe lower
  rw [takeCandidate, within_bind, and_iff_left fun _ _ => within_pure _ _]
  exact within_parse covers.upperLe covers.fitsInt regionLower lengthInside rfl rfl rfl

/-- Whatever the scan yields, the pass goes on at the first accepted position
or leaves at the write cursor. -/
theorem scan_outcome (valid : buffer.Valid) (covers : region.Covers buffer)
    (fits : ∀ i, Scanned buffer i → Marks buffer.buffer buffer.writeIndex i →
      ProbeFits region buffer.buffer buffer.writeIndex i) :
    (∃ i, Scanned buffer i ∧ Accepts buffer.buffer buffer.writeIndex i ∧
      (scan buffer.buffer buffer.writeIndex buffer.readIndex
        (buffer.writeIndex - buffer.readIndex)).Yields
          (some (candidateAt buffer.buffer i))) ∨
    (ComesTo buffer.buffer buffer.writeIndex buffer.readIndex buffer.writeIndex ∧
      (scan buffer.buffer buffer.writeIndex buffer.readIndex
        (buffer.writeIndex - buffer.readIndex)).Yields none) := by
  have ordered := Nat.add_sub_cancel' valid.readLeWrite
  have outcome := scan_yields covers.upperLe covers.upperGe covers.lowerLe
    (Nat.le_of_eq ordered) (fun i comes below => fits i ⟨comes, ordered ▸ below⟩)
  rw [ordered] at outcome
  rcases outcome with ⟨i, comes, below, accepts, yields⟩ | leaves
  · exact .inl ⟨i, ⟨comes, below⟩, accepts, yields⟩
  · exact .inr leaves

/-- One pass stays inside a region exactly when the lengths it reads fit the
region. -/
theorem within_iteration (valid : buffer.Valid) (covers : region.Covers buffer) :
    (iteration buffer).Within (Access.Inside region) ↔ LengthsFit region buffer := by
  have ordered := Nat.add_sub_cancel' valid.readLeWrite
  have scanned := @within_scan _ _ _ covers.upperLe covers.upperGe
    (buffer.writeIndex - buffer.readIndex) _ covers.lowerLe (Nat.le_of_eq ordered)
  rw [ordered] at scanned
  rw [iteration, within_bind, scanned]
  constructor
  · intro both
    have scanFits : ∀ i, Scanned buffer i → Marks buffer.buffer buffer.writeIndex i →
        ProbeFits region buffer.buffer buffer.writeIndex i :=
      fun i isScanned => both.1 i isScanned.1 isScanned.2
    refine ⟨scanFits, fun i isScanned accepts => ?_⟩
    rcases scan_outcome valid covers scanFits with ⟨k, scannedToo, acceptsToo, yields⟩ | leaves
    · have same := isScanned.1.unique accepts scannedToo.1 acceptsToo
      have lengthInside := (scanFits i isScanned accepts.1).1
      rw [← same] at yields
      have taken := both.2 (some (candidateAt buffer.buffer i)) yields
      exact (within_takeCandidate covers isScanned.1.1 lengthInside).mp taken
    · exact absurd accepts (leaves.1.2 i isScanned.1.1 isScanned.2)
  · intro fits
    refine ⟨fun i comes below => fits.scan i ⟨comes, below⟩, fun value yields => ?_⟩
    rcases scan_outcome valid covers fits.scan with ⟨i, isScanned, accepts, found⟩ | leaves
    · have lengthInside := (fits.scan i isScanned accepts.1).1
      rw [yields.unique found]
      exact (within_takeCandidate covers isScanned.1.1 lengthInside).mpr
        (fits.fields i isScanned accepts)
    · rw [yields.unique leaves.2]
      exact within_pure _ _

end Iteration

/-! ## Turns of the outer loop -/

section Turns

variable {buffer next : TcpBuffer}

theorem storageRegion_covers (valid : buffer.Valid) :
    (storageRegion buffer.buffer).Covers buffer where
  lowerLe := Nat.zero_le _
  upperGe := valid.writeLeSize
  upperLe := Nat.le_refl _
  fitsInt := valid.sizeFitsInt

/-- The pass has no undefined behaviour exactly when the lengths it reads fit
the storage and the local arrays. -/
theorem body_ok_iff (valid : buffer.Valid) :
    (∃ pass, body buffer = .ok pass) ↔
      LengthsFit (storageRegion buffer.buffer) buffer := by
  rw [← within_iteration valid (storageRegion_covers valid)]
  exact exists_yields_iff (iteration buffer)

theorem body_outcome (valid : buffer.Valid)
    (fits : LengthsFit (storageRegion buffer.buffer) buffer) :
    (∃ i message, Scanned buffer i ∧ Accepts buffer.buffer buffer.writeIndex i ∧
      body buffer =
        .ok (.again (buffer.moveReadIndex (lengthAt buffer.buffer (i + 1))) message)) ∨
    ((∀ i, Scanned buffer i → ¬Accepts buffer.buffer buffer.writeIndex i) ∧
      body buffer = .ok .leave) := by
  have covers := storageRegion_covers valid
  rcases (body_ok_iff valid).mpr fits with ⟨pass, passed⟩
  have yields : (iteration buffer).Yields pass := passed
  rcases scan_outcome valid covers fits.scan with ⟨i, isScanned, accepts, found⟩ | leaves
  · rcases yields_bind_iff.mp yields with ⟨value, yieldsValue, rest⟩
    rw [yieldsValue.unique found] at rest
    have taken : (takeCandidate buffer (candidateAt buffer.buffer i)).Yields pass := rest
    rcases yields_bind_iff.mp taken with ⟨message, _, final⟩
    rw [takeCandidate_moved, yields_pure_iff] at final
    exact .inl ⟨i, message, isScanned, accepts, final ▸ passed⟩
  · have left : (iteration buffer).Yields .leave := leaves.2.bind (yields_pure _)
    exact .inr ⟨fun i isScanned => leaves.1.2 i isScanned.1.1 isScanned.2, left⟩

/-- A scan that comes to a candidate has kept inside the storage and has accepted
the position where the candidate starts. -/
theorem scan_found (valid : buffer.Valid) {candidate : Candidate}
    (found : (scan buffer.buffer buffer.writeIndex buffer.readIndex
      (buffer.writeIndex - buffer.readIndex)).Yields (some candidate)) :
    (∀ i, Scanned buffer i → Marks buffer.buffer buffer.writeIndex i →
      ProbeFits (storageRegion buffer.buffer) buffer.buffer buffer.writeIndex i) ∧
    ∃ i, Scanned buffer i ∧ Accepts buffer.buffer buffer.writeIndex i ∧
      candidate = candidateAt buffer.buffer i := by
  have covers := storageRegion_covers valid
  have ordered := Nat.add_sub_cancel' valid.readLeWrite
  have scanned := @within_scan _ _ _ covers.upperLe covers.upperGe
    (buffer.writeIndex - buffer.readIndex) _ covers.lowerLe (Nat.le_of_eq ordered)
  rw [ordered] at scanned
  have probes := scanned.mp ((exists_yields_iff _).mp ⟨_, found⟩)
  have fits : ∀ i, Scanned buffer i → Marks buffer.buffer buffer.writeIndex i →
      ProbeFits (storageRegion buffer.buffer) buffer.buffer buffer.writeIndex i :=
    fun i isScanned => probes i isScanned.1 isScanned.2
  refine ⟨fits, ?_⟩
  rcases scan_outcome valid covers fits with ⟨i, isScanned, accepts, yields⟩ | leaves
  · exact ⟨i, isScanned, accepts, Option.some.inj (found.unique yields)⟩
  · cases found.unique leaves.2

/-- A pass that goes around takes the first accepted position for the start of
a frame, and what it emits is what it parses there. -/
theorem body_again_iff (valid : buffer.Valid) {item : Option TinyPBProtocol} :
    body buffer = .ok (.again next item) ↔
      (∀ i, Scanned buffer i → Marks buffer.buffer buffer.writeIndex i →
        ProbeFits (storageRegion buffer.buffer) buffer.buffer buffer.writeIndex i) ∧
      ∃ i, Scanned buffer i ∧ Accepts buffer.buffer buffer.writeIndex i ∧
        (parse buffer.buffer (candidateAt buffer.buffer i)).Yields item ∧
        next = buffer.moveReadIndex (lengthAt buffer.buffer (i + 1)) := by
  have covers := storageRegion_covers valid
  have taken_iff : ∀ i, (takeCandidate buffer (candidateAt buffer.buffer i)).Yields
      (.again next item) ↔
        (parse buffer.buffer (candidateAt buffer.buffer i)).Yields item ∧
          next = buffer.moveReadIndex (lengthAt buffer.buffer (i + 1)) := by
    intro i
    rw [takeCandidate, takeCandidate_moved, yields_bind_iff]
    constructor
    · intro taken
      rcases taken with ⟨parsed, yields, final⟩
      cases yields_pure_iff.mp final
      exact ⟨yields, rfl⟩
    · intro both
      rcases both with ⟨yields, rfl⟩
      exact ⟨item, yields, yields_pure _⟩
  constructor
  · intro passed
    have fits := ((body_ok_iff valid).mp ⟨_, passed⟩).scan
    refine ⟨fits, ?_⟩
    have yields : (iteration buffer).Yields (.again next item) := passed
    rcases yields_bind_iff.mp yields with ⟨value, yieldsValue, rest⟩
    rcases scan_outcome valid covers fits with ⟨i, isScanned, accepts, found⟩ | leaves
    · rw [yieldsValue.unique found] at rest
      exact ⟨i, isScanned, accepts, (taken_iff i).mp rest⟩
    · rw [yieldsValue.unique leaves.2] at rest
      cases yields_pure_iff.mp rest
  · intro both
    rcases both with ⟨fits, i, isScanned, accepts, taken⟩
    rcases scan_outcome valid covers fits with ⟨k, scannedToo, acceptsToo, found⟩ | leaves
    · rw [isScanned.1.unique accepts scannedToo.1 acceptsToo] at taken
      have yields : (iteration buffer).Yields (.again next item) :=
        found.bind ((taken_iff k).mpr taken)
      exact yields
    · exact absurd accepts (leaves.1.2 i isScanned.1.1 isScanned.2)

theorem turns_iff (valid : buffer.Valid) :
    Loop.Turns body buffer next ↔
      LengthsFit (storageRegion buffer.buffer) buffer ∧
        ∃ i, Scanned buffer i ∧ Accepts buffer.buffer buffer.writeIndex i ∧
          next = buffer.moveReadIndex (lengthAt buffer.buffer (i + 1)) := by
  constructor
  · intro turns
    rcases turns with ⟨item, passed⟩
    rcases (body_again_iff valid).mp passed with ⟨_, i, isScanned, accepts, _, moved⟩
    exact ⟨(body_ok_iff valid).mp ⟨_, passed⟩, i, isScanned, accepts, moved⟩
  · intro both
    rcases both with ⟨fits, i, isScanned, accepts, moved⟩
    rcases body_outcome valid fits with ⟨k, message, scannedToo, acceptsToo, turned⟩ | ⟨none, _⟩
    · have same := isScanned.1.unique accepts scannedToo.1 acceptsToo
      rw [← same, ← moved] at turned
      exact ⟨message, turned⟩
    · exact absurd accepts (none i isScanned)

theorem body_leave_iff (valid : buffer.Valid) :
    body buffer = .ok .leave ↔
      LengthsFit (storageRegion buffer.buffer) buffer ∧
        ∀ i, Scanned buffer i → ¬Accepts buffer.buffer buffer.writeIndex i := by
  constructor
  · intro left
    have fits := (body_ok_iff valid).mp ⟨_, left⟩
    rcases body_outcome valid fits with ⟨_, _, _, _, turned⟩ | ⟨none, _⟩
    · rw [left] at turned
      cases turned
    · exact ⟨fits, none⟩
  · intro both
    rcases body_outcome valid both.1 with ⟨i, _, isScanned, accepts, _⟩ | ⟨_, left⟩
    · exact absurd accepts (both.2 i isScanned)
    · exact left

/-- An accepted frame ends in front of the write cursor. -/
theorem moved_le_writeIndex {i : Nat} (isScanned : Scanned buffer i)
    (accepts : Accepts buffer.buffer buffer.writeIndex i) :
    (buffer.readIndex : Int) + lengthAt buffer.buffer (i + 1) ≤ buffer.writeIndex := by
  have ends := accepts.2.1
  have lower := isScanned.1.1
  rw [endAt] at ends
  generalize lengthAt buffer.buffer (i + 1) = length at ends ⊢
  omega

theorem turns_valid (valid : buffer.Valid) (turns : Loop.Turns body buffer next) :
    next.Valid := by
  rcases (turns_iff valid).mp turns with ⟨_, i, isScanned, accepts, moved⟩
  rw [moved]
  exact TcpBuffer.moveReadIndex_valid valid (moved_le_writeIndex isScanned accepts)

theorem turns_spare (spare : buffer.Spare) (turns : Loop.Turns body buffer next) :
    next.Spare := by
  rcases (turns_iff spare.toValid).mp turns with ⟨_, i, isScanned, accepts, moved⟩
  rw [moved]
  exact TcpBuffer.moveReadIndex_spare spare (moved_le_writeIndex isScanned accepts)

theorem reaches_valid {initial state : TcpBuffer} (valid : initial.Valid)
    (reaches : Loop.Reaches body initial state) : state.Valid :=
  reaches.preserves TcpBuffer.Valid (fun _ _ => turns_valid) valid

theorem reaches_spare {initial state : TcpBuffer} (spare : initial.Spare)
    (reaches : Loop.Reaches body initial state) : state.Spare :=
  reaches.preserves TcpBuffer.Spare (fun _ _ => turns_spare) spare

end Turns

/-! ## Two frames -/

def order : TinyPBProtocol where
  msgId := ascii "1"
  methodName := ascii "Order.makeOrder"

/-- Two frames and the first byte of another have arrived. -/
def twoFrames : TcpBuffer where
  readIndex := 0
  writeIndex := 85
  buffer := frame order ++ frame order ++ pbStart :: List.replicate 43 0

/-- The buffer after so many passes. -/
def twoFramesAfter : Nat → TcpBuffer
  | 0 => twoFrames
  | passes + 1 => (twoFramesAfter passes).moveReadIndex order.frameLength

theorem twoFrames_spare : twoFrames.Spare :=
  ⟨⟨by decide +kernel, by decide +kernel, by decide +kernel⟩, by decide +kernel⟩

/-- Each of two passes takes a frame, and the third one leaves the loop. -/
theorem twoFrames_passes :
    (∀ passes < 2, body (twoFramesAfter passes) =
      .ok (.again (twoFramesAfter (passes + 1)) (some order.measured))) ∧
    body (twoFramesAfter 2) = .ok .leave := by
  decide +kernel

theorem twoFrames_reaches {buffer : TcpBuffer} (reaches : Loop.Reaches body twoFrames buffer) :
    ∃ passes < 3, buffer = twoFramesAfter passes := by
  refine reaches.preserves (fun buffer => ∃ passes < 3, buffer = twoFramesAfter passes) ?_
    ⟨0, by decide, rfl⟩
  intro current next reached turns
  rcases reached with ⟨passes, few, rfl⟩
  rcases turns with ⟨item, turned⟩
  by_cases last : passes = 2
  · rw [last, twoFrames_passes.2] at turned
    cases turned
  · rw [twoFrames_passes.1 passes (by omega)] at turned
    cases turned
    exact ⟨passes + 1, by omega, rfl⟩

end NetRpc.TinyPBCoder
