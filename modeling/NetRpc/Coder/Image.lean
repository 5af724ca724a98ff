import Mathlib.Data.List.TakeWhile
import NetRpc.Coder.Pass
import NetRpc.Coder.RoundTrip

/-! # What an emitted frame looks like

The inner lengths of an emitted frame always add up to its packet length, since
`pb_data` takes what they leave. Nothing looks at its checksum, and a text is
cut at its first NUL.
-/

namespace NetRpc.TinyPBCoder

open TinyPBProtocol Traced

/-- One iteration emits `message` for the bytes of `candidate`. -/
structure Emits (buffer : TcpBuffer) (candidate : Candidate) (message : TinyPBProtocol) :
    Prop where
  found : (scan buffer.buffer buffer.writeIndex buffer.readIndex
    (buffer.writeIndex - buffer.readIndex)).Yields (some candidate)
  parsed : (parse buffer.buffer candidate).Yields (some message)

/-- The messages of the loop are those that its iterations emit. -/
theorem body_emits_iff {buffer next : TcpBuffer} {message : TinyPBProtocol} :
    body buffer = .ok (.again next (some message)) ↔
      ∃ candidate, Emits buffer candidate message ∧
        next = buffer.moveReadIndex (candidate.endIndex - candidate.startIndex + 1) := by
  change (iteration buffer).Yields _ ↔ _
  rw [iteration, yields_bind_iff]
  constructor
  · intro yields
    rcases yields with ⟨value, found, taken⟩
    cases value with
    | none => cases yields_pure_iff.mp taken
    | some candidate =>
        rcases yields_bind_iff.mp taken with ⟨parsed, yieldsParsed, result⟩
        cases yields_pure_iff.mp result
        exact ⟨candidate, ⟨found, yieldsParsed⟩, rfl⟩
  · intro emits
    rcases emits with ⟨candidate, emits, rfl⟩
    exact ⟨some candidate, emits.found, emits.parsed.bind (yields_pure _)⟩

/-- The bytes of the field whose length stands at `index`. -/
def fieldBytes (tmp : Bytes) (index : Int) : Bytes :=
  (tmp.drop (index + 4).toNat).take (lengthAt tmp index).toNat

/-- Where the length of the method name stands in the frame at `i`. -/
def methodNameLenAt (tmp : Bytes) (i : Nat) : Int :=
  afterField tmp (i + 5 : Nat)

/-- Where the length of the error text stands. -/
def errInfoLenAt (tmp : Bytes) (i : Nat) : Int :=
  afterField tmp (methodNameLenAt tmp i) + 4

/-- The four bytes in front of the end marker. -/
def checkSumBytes (tmp : Bytes) (i : Nat) : Bytes :=
  (tmp.drop (endAt tmp i - 4).toNat).take 4

/-- The id of the frame at `i` is not empty, its texts hold no NUL, and its
checksum is the one that the encoder writes. -/
structure Canonical (tmp : Bytes) (i : Nat) : Prop where
  msgId_ne_nil : fieldBytes tmp (i + 5 : Nat) ≠ []
  msgId : 0 ∉ fieldBytes tmp (i + 5 : Nat)
  methodName : 0 ∉ fieldBytes tmp (methodNameLenAt tmp i)
  errInfo : 0 ∉ fieldBytes tmp (errInfoLenAt tmp i)
  checkSum : checkSumBytes tmp i = htonl 1

/-! ## The parts of a frame -/

/-- A frame with any texts and any checksum. -/
def rawFrame (msgId methodName : Bytes) (errCode : Int32) (errInfo pbData checkSum : Bytes) :
    Bytes :=
  [pbStart] ++
    htonl (.ofNat (2 + 24 + msgId.length + methodName.length + errInfo.length +
      pbData.length)) ++
    htonl (.ofNat msgId.length) ++ msgId ++
    htonl (.ofNat methodName.length) ++ methodName ++
    htonl errCode ++
    htonl (.ofNat errInfo.length) ++ errInfo ++
    pbData ++
    checkSum ++
    [pbEnd]

theorem frame_eq_rawFrame (message : TinyPBProtocol) :
    frame message =
      rawFrame (withMsgId message).msgId (withMsgId message).methodName
        (withMsgId message).errCode (withMsgId message).errInfo (withMsgId message).pbData
        (htonl 1) := rfl

section Fields

variable {tmp : Bytes}

theorem cString_append_replicate (text : Bytes) (count : Nat) :
    cString (text ++ List.replicate count 0) = cString text := by
  induction text with
  | nil => cases count <;> simp [cString, List.replicate_succ]
  | cons letter text induction =>
      simp only [cString, List.cons_append, List.takeWhile_cons] at induction ⊢
      rw [induction]

theorem cString_eq_iff (text : Bytes) : cString text = text ↔ 0 ∉ text := by
  rw [cString, List.takeWhile_eq_self_iff]
  constructor
  · intro all member
    simpa using all 0 member
  · intro nulFree letter member
    simp only [bne_iff_ne, ne_eq]
    exact fun isNul => nulFree (isNul ▸ member)

theorem occursAt_htonl {index : Nat} (inside : index + 4 ≤ tmp.length) :
    OccursAt tmp index (htonl (int32At tmp index)) := by
  have enough : 4 ≤ (tmp.drop index).length := by
    rw [List.length_drop]
    omega
  rw [int32At, Int.toNat_natCast, htonl_getInt32FromNetByte enough]
  exact List.take_prefix _ _

theorem occursAt_byte {index : Nat} {byte : Byte} (inside : index < tmp.length)
    (found : tmp.getD index 0 = byte) : OccursAt tmp index [byte] := by
  rw [OccursAt.cons_iff]
  refine ⟨?_, List.nil_prefix⟩
  rw [← found, List.getD_eq_getElem?_getD, List.getElem?_eq_getElem inside]
  rfl

theorem ofNat_toNat_toInt {value : Int32} (nonnegative : 0 ≤ value.toInt) :
    Int32.ofNat value.toInt.toNat = value := by
  rw [← Int32.ofInt_eq_ofNat, Int.toNat_of_nonneg nonnegative, Int32.ofInt_toInt]

/-- A field that has been read stands in the storage with its length in front. -/
theorem readField_layout (fitsInt : tmp.length < 2 ^ 31) {capacity index : Nat} {field : Field}
    (yields : (readField capacity tmp index).Yields field) :
    OccursAt tmp index
        (htonl (.ofNat (fieldBytes tmp index).length) ++ fieldBytes tmp index) ∧
      field.length = .ofNat (fieldBytes tmp index).length ∧
      field.length.toInt = (fieldBytes tmp index).length ∧
      field.text = cString (fieldBytes tmp index) ∧
      field.next = (index + 4 + (fieldBytes tmp index).length : Nat) ∧
      afterField tmp index = (index + 4 + (fieldBytes tmp index).length : Nat) := by
  have inStorage : (storageRegion tmp).upper ≤ tmp.length := Nat.le_refl _
  have lower : ((storageRegion tmp).lower : Int) ≤ index := Int.natCast_nonneg index
  have fits := (within_readField inStorage fitsInt lower).mp
    ((exists_yields_iff _).mp ⟨field, yields⟩)
  cases yields.unique (readField_yields inStorage fitsInt lower fits)
  rcases fits with ⟨lengthInside, nonnegative, _, textInside, _⟩
  simp only [storageRegion] at lengthInside textInside
  have textIndex : ((index : Int) + 4).toNat = index + 4 := by omega
  have length : (fieldBytes tmp index).length = (lengthAt tmp index).toNat := by
    rw [fieldBytes, textIndex, List.length_take, List.length_drop]
    omega
  have declared : int32At tmp index = .ofNat (fieldBytes tmp index).length := by
    rw [length]
    exact (ofNat_toNat_toInt nonnegative).symm
  have next : afterField tmp index =
      (index + 4 + (fieldBytes tmp index).length : Nat) := by
    rw [afterField, length]
    omega
  refine ⟨?_, declared, ?_, ?_, next, next⟩
  · rw [OccursAt.append_iff, htonl_length, ← declared]
    refine ⟨occursAt_htonl (by omega), ?_⟩
    rw [fieldBytes, textIndex]
    exact List.take_prefix _ _
  · rw [length]
    exact (Int.toNat_of_nonneg nonnegative).symm
  · exact cString_append_replicate _ _

end Fields

/-! ## The bytes of an emitted frame -/

section Layout

variable {tmp : Bytes}

/-- The parser goes on where a check of an index succeeds. -/
theorem yields_check_iff {endIndex index : Int} {α : Type}
    {rest : Traced (Legal tmp) (Option α)} {value : α} :
    (if endIndex ≤ index then pure none else rest : Traced (Legal tmp) (Option α)).Yields
        (some value) ↔ index < endIndex ∧ rest.Yields (some value) := by
  by_cases rejected : endIndex ≤ index
  · rw [if_pos rejected, yields_pure_iff]
    exact iff_of_false (fun same => nomatch same) fun both => absurd both.1 (by omega)
  · rw [if_neg rejected]
    exact (and_iff_right (Int.not_le.mp rejected)).symm

theorem readInt32_value {index : Nat} {value : Int32}
    (yields : (readInt32 tmp index).Yields value) :
    index + 4 ≤ tmp.length ∧ OccursAt tmp index (htonl value) := by
  simp only [readInt32, yields_bind_iff, yields_touch_iff, yields_pure_iff, Access.Inside,
    storageRegion] at yields
  rcases yields with ⟨_, ⟨_, _, inside⟩, rfl⟩
  have lengthInside : index + 4 ≤ tmp.length := by omega
  exact ⟨lengthInside, occursAt_htonl lengthInside⟩

/-- `pb_data` takes what the other fields and the fixed parts leave. -/
theorem readPbData_layout {pkLen : Int32} {msgId methodName errInfo : Field} {index : Nat}
    {pbData : Bytes} (next : errInfo.next = index)
    (yields : (readPbData tmp pkLen msgId methodName errInfo).Yields pbData) :
    OccursAt tmp index pbData ∧
      pkLen.toInt = 26 + msgId.length.toInt + methodName.length.toInt +
        errInfo.length.toInt + pbData.length := by
  simp only [readPbData, addInt, yields_bind_iff, yields_touch_iff, yields_pure_iff, next,
    Access.Inside, storageRegion, Int.toNat_natCast] at yields
  rcases yields with ⟨length, ⟨_, _, rfl⟩, _, ⟨nonnegative, _, inside⟩, rfl⟩
  refine ⟨List.take_prefix _ _, ?_⟩
  rw [List.length_take, List.length_drop]
  omega

theorem checkSumBytes_length {i : Nat} (lower : 3 ≤ endAt tmp i)
    (upper : endAt tmp i < tmp.length) : (checkSumBytes tmp i).length = 4 := by
  rw [checkSumBytes, List.length_take, List.length_drop]
  omega

/-- Fields that fill the packet length, between the two markers. -/
theorem occursAt_rawFrame {i : Nat} {msgId methodName errInfo pbData : Bytes}
    {errCode : Int32} (inside : i + 5 ≤ tmp.length) (marker : tmp.getD i 0 = pbStart)
    (finishInside : endAt tmp i < tmp.length) (finish : tmp.getD (endAt tmp i).toNat 0 = pbEnd)
    (total : lengthAt tmp (i + 1) = 26 + msgId.length + methodName.length + errInfo.length +
      pbData.length)
    (msgIdAt : OccursAt tmp (i + 5) (htonl (.ofNat msgId.length) ++ msgId))
    (methodNameAt : OccursAt tmp (i + 5 + 4 + msgId.length)
      (htonl (.ofNat methodName.length) ++ methodName))
    (errCodeAt : OccursAt tmp (i + 5 + 4 + msgId.length + 4 + methodName.length)
      (htonl errCode))
    (errInfoAt : OccursAt tmp (i + 5 + 4 + msgId.length + 4 + methodName.length + 4)
      (htonl (.ofNat errInfo.length) ++ errInfo))
    (pbDataAt : OccursAt tmp (i + 5 + 4 + msgId.length + 4 + methodName.length + 4 + 4 +
      errInfo.length) pbData) :
    OccursAt tmp i (rawFrame msgId methodName errCode errInfo pbData (checkSumBytes tmp i)) := by
  have at_index {bytes : Bytes} {index other : Nat}
      (there : OccursAt tmp index bytes) (equal : index = other) :
      OccursAt tmp other bytes := equal ▸ there
  have size : (lengthAt tmp (i + 1)).toNat =
      2 + 24 + msgId.length + methodName.length + errInfo.length + pbData.length := by omega
  have pkLenAt : OccursAt tmp (i + 1) (htonl (int32At tmp (i + 1))) :=
    occursAt_htonl (by omega)
  have declared := ofNat_toNat_toInt (show 0 ≤ lengthAt tmp (i + 1) by omega)
  change Int32.ofNat (lengthAt tmp (i + 1)).toNat = _ at declared
  rw [← declared, size] at pkLenAt
  have endIndex : endAt tmp i = i + lengthAt tmp (i + 1) - 1 := rfl
  have checkSumIndex : (endAt tmp i - 4).toNat = i + 5 + 4 + msgId.length + 4 +
      methodName.length + 4 + 4 + errInfo.length + pbData.length := by omega
  have four := checkSumBytes_length (show 3 ≤ endAt tmp i by omega) finishInside
  have checkSumAt : OccursAt tmp (endAt tmp i - 4).toNat (checkSumBytes tmp i) :=
    List.take_prefix _ _
  have finishAt := occursAt_byte (show (endAt tmp i).toNat < tmp.length by omega) finish
  rw [OccursAt.append_iff, htonl_length] at msgIdAt methodNameAt errInfoAt
  simp only [rawFrame, OccursAt.append_iff, List.length_append, htonl_length,
    List.length_singleton]
  exact ⟨⟨⟨⟨⟨⟨⟨⟨⟨⟨⟨occursAt_byte (by omega) marker, pkLenAt⟩,
    at_index msgIdAt.1 (by omega)⟩, at_index msgIdAt.2 (by omega)⟩,
    at_index methodNameAt.1 (by omega)⟩, at_index methodNameAt.2 (by omega)⟩,
    at_index errCodeAt (by omega)⟩, at_index errInfoAt.1 (by omega)⟩,
    at_index errInfoAt.2 (by omega)⟩, at_index pbDataAt (by omega)⟩,
    at_index checkSumAt (by omega)⟩, at_index finishAt (by omega)⟩

/-- The frame at `i`, up to its checksum, is that of `message`, whose texts have
been cut at their first NUL. -/
structure LaidOut (tmp : Bytes) (i : Nat) (message : TinyPBProtocol) : Prop where
  occurs : OccursAt tmp i
    (rawFrame (fieldBytes tmp (i + 5 : Nat)) (fieldBytes tmp (methodNameLenAt tmp i))
      message.errCode (fieldBytes tmp (errInfoLenAt tmp i)) message.pbData
      (checkSumBytes tmp i))
  total : lengthAt tmp (i + 1) = 26 + (fieldBytes tmp (i + 5 : Nat)).length +
    (fieldBytes tmp (methodNameLenAt tmp i)).length +
    (fieldBytes tmp (errInfoLenAt tmp i)).length + message.pbData.length
  msgId : message.msgId = cString (fieldBytes tmp (i + 5 : Nat))
  methodName : message.methodName = cString (fieldBytes tmp (methodNameLenAt tmp i))
  errInfo : message.errInfo = cString (fieldBytes tmp (errInfoLenAt tmp i))

theorem parse_layout (fitsInt : tmp.length < 2 ^ 31) {i : Nat} (inside : i + 5 ≤ tmp.length)
    (finishInside : endAt tmp i < tmp.length) (marker : tmp.getD i 0 = pbStart)
    (finish : tmp.getD (endAt tmp i).toNat 0 = pbEnd) {message : TinyPBProtocol}
    (parsed : (parse tmp (candidateAt tmp i)).Yields (some message)) :
    LaidOut tmp i message := by
  have msgIdIndex : (addSize tmp i (1 + 4)).Yields (i + 5 : Nat) :=
    addSize_yields (by omega) (inIntRange_natCast (by omega))
  simp only [parse, candidateAt] at parsed
  rcases yields_bind_iff.mp parsed with ⟨_, yieldsIndex, parsed⟩
  cases yieldsIndex.unique msgIdIndex
  rcases yields_check_iff.mp parsed with ⟨_, parsed⟩
  rcases yields_bind_iff.mp parsed with ⟨msgId, readMsgId, parsed⟩
  rcases readField_layout fitsInt readMsgId with
    ⟨msgIdOccurs, _, msgIdLength, msgIdText, msgIdNext, msgIdAfter⟩
  rw [msgIdNext] at parsed
  rcases yields_check_iff.mp parsed with ⟨_, parsed⟩
  rcases yields_bind_iff.mp parsed with ⟨methodName, readMethodName, parsed⟩
  rcases readField_layout fitsInt readMethodName with
    ⟨methodNameOccurs, _, methodNameLength, methodNameText, methodNameNext, methodNameAfter⟩
  rw [methodNameNext] at parsed
  rcases yields_check_iff.mp parsed with ⟨_, parsed⟩
  rcases yields_bind_iff.mp parsed with ⟨errCode, readErrCode, parsed⟩
  rcases readInt32_value readErrCode with ⟨errCodeInside, errCodeOccurs⟩
  have errInfoIndex := @addSize_yields tmp _ _ 4 (Int.natCast_add _ 4).symm
    (inIntRange_natCast (Nat.lt_of_le_of_lt errCodeInside fitsInt))
  rcases yields_bind_iff.mp parsed with ⟨_, yieldsErrInfoIndex, parsed⟩
  cases yieldsErrInfoIndex.unique errInfoIndex
  rcases yields_check_iff.mp parsed with ⟨_, parsed⟩
  rcases yields_bind_iff.mp parsed with ⟨errInfo, readErrInfo, parsed⟩
  rcases readField_layout fitsInt readErrInfo with
    ⟨errInfoOccurs, _, errInfoLength, errInfoText, errInfoNext, errInfoAfter⟩
  rcases yields_bind_iff.mp parsed with ⟨pbData, readPbData, result⟩
  rcases readPbData_layout errInfoNext readPbData with ⟨pbDataOccurs, total⟩
  cases yields_pure_iff.mp result
  have methodNameAt : methodNameLenAt tmp i =
      (i + 5 + 4 + (fieldBytes tmp (i + 5 : Nat)).length : Nat) := msgIdAfter
  have errInfoStart : errInfoLenAt tmp i = afterField tmp (methodNameLenAt tmp i) + 4 := rfl
  rw [methodNameAt, methodNameAfter] at errInfoStart
  have errInfoAt := errInfoStart.trans (Int.natCast_add _ 4).symm
  rw [msgIdLength, methodNameLength, errInfoLength] at total
  have occurs := occursAt_rawFrame inside marker finishInside finish total msgIdOccurs
    methodNameOccurs errCodeOccurs errInfoOccurs pbDataOccurs
  rw [← errInfoAt, ← methodNameAt] at occurs total
  rw [← methodNameAt] at methodNameText
  rw [← errInfoAt] at errInfoText
  exact ⟨occurs, total, msgIdText, methodNameText, errInfoText⟩

theorem emits_layout {buffer : TcpBuffer} (valid : buffer.Valid) {candidate : Candidate}
    {message : TinyPBProtocol} (emits : Emits buffer candidate message) :
    LaidOut buffer.buffer candidate.startIndex message ∧
      candidate.endIndex = endAt buffer.buffer candidate.startIndex ∧
      endAt buffer.buffer candidate.startIndex < buffer.buffer.length := by
  rcases scan_found valid emits.found with ⟨fits, i, isScanned, accepts, rfl⟩
  have finishInside : endAt buffer.buffer i < buffer.buffer.length :=
    Int.lt_of_lt_of_le accepts.2.1 (Int.ofNat_le.mpr valid.writeLeSize)
  exact ⟨parse_layout valid.sizeFitsInt (fits i isScanned accepts.1).1 finishInside
    accepts.1.1 accepts.2.2 emits.parsed, rfl, finishInside⟩

end Layout

/-! ## Comparison with the encoder -/

theorem htonl_injective {left right : Int32} (same : htonl left = htonl right) :
    left = right := by
  have first := getInt32FromNetByte_htonl_append left []
  rw [same, getInt32FromNetByte_htonl_append] at first
  exact first.symm

theorem ofNat_injective {left right : Nat} (leftFits : left < 2 ^ 31)
    (rightFits : right < 2 ^ 31) (same : Int32.ofNat left = Int32.ofNat right) :
    left = right := by
  have values := congrArg Int32.toInt same
  rw [Int32.toInt_ofNat_of_lt leftFits, Int32.toInt_ofNat_of_lt rightFits] at values
  exact Int.ofNat_inj.mp values

/-- A text with its length in front is taken off unambiguously. -/
theorem sized_append_inj {left right leftRest rightRest : Bytes} (leftFits : left.length < 2 ^ 31)
    (rightFits : right.length < 2 ^ 31)
    (same : htonl (.ofNat left.length) ++ (left ++ leftRest) =
      htonl (.ofNat right.length) ++ (right ++ rightRest)) :
    left = right ∧ leftRest = rightRest := by
  rcases List.append_inj same rfl with ⟨lengths, texts⟩
  have length := ofNat_injective leftFits rightFits (htonl_injective lengths)
  exact List.append_inj texts length

section Compare

variable {msgId methodName errInfo pbData checkSum : Bytes} {errCode : Int32}

theorem rawFrame_length (four : checkSum.length = 4) :
    (rawFrame msgId methodName errCode errInfo pbData checkSum).length =
      26 + msgId.length + methodName.length + errInfo.length + pbData.length := by
  simp only [rawFrame, List.length_append, htonl_length, List.length_singleton, four]
  omega

/-- A frame determines its texts and its checksum. -/
theorem rawFrame_inj {otherId otherName otherInfo otherSum : Bytes}
    (fits : msgId.length + methodName.length + errInfo.length < 2 ^ 31)
    (otherFits : otherId.length + otherName.length + otherInfo.length < 2 ^ 31)
    (same : rawFrame msgId methodName errCode errInfo pbData checkSum =
      rawFrame otherId otherName errCode otherInfo pbData otherSum) :
    msgId = otherId ∧ methodName = otherName ∧ errInfo = otherInfo ∧ checkSum = otherSum := by
  simp only [rawFrame, List.append_assoc] at same
  have afterMarker := (List.append_inj same rfl).2
  have afterPkLen := (List.append_inj afterMarker rfl).2
  rcases sized_append_inj (by omega) (by omega) afterPkLen with ⟨sameId, afterId⟩
  rcases sized_append_inj (by omega) (by omega) afterId with ⟨sameName, afterName⟩
  have afterCode := (List.append_inj afterName rfl).2
  rcases sized_append_inj (by omega) (by omega) afterCode with ⟨sameInfo, afterInfo⟩
  have afterData := List.append_cancel_left afterInfo
  exact ⟨sameId, sameName, sameInfo, List.append_cancel_right afterData⟩

/-- A frame is what the encoder makes of the message read from it exactly when
the message has an id, no text has been cut, and the checksum is 1. -/
theorem rawFrame_eq_frame_iff {message : TinyPBProtocol}
    (fits : 26 + msgId.length + methodName.length + errInfo.length < 2 ^ 31)
    (isId : message.msgId = cString msgId) (isName : message.methodName = cString methodName)
    (isInfo : message.errInfo = cString errInfo) :
    rawFrame msgId methodName message.errCode errInfo message.pbData checkSum =
        frame message ↔
      msgId ≠ [] ∧ 0 ∉ msgId ∧ 0 ∉ methodName ∧ 0 ∉ errInfo ∧ checkSum = htonl 1 := by
  rw [frame_eq_rawFrame, ← cString_eq_iff, ← cString_eq_iff, ← cString_eq_iff]
  have cut : ∀ text : Bytes, (cString text).length ≤ text.length := fun text =>
    (List.takeWhile_prefix _).length_le
  by_cases unnamed : message.msgId = []
  · have substituted : withMsgId message = { message with msgId := ascii "123456789" } := by
      rw [withMsgId, unnamed]
      rfl
    rw [substituted]
    have nine : (ascii "123456789").length = 9 := by decide
    constructor
    · intro same
      have otherFits : (ascii "123456789").length + message.methodName.length +
          message.errInfo.length < 2 ^ 31 := by
        have nameCut := cut methodName
        have infoCut := cut errInfo
        rw [nine, isName, isInfo]
        omega
      have sameId := (rawFrame_inj (by omega) otherFits same).1
      rw [sameId] at isId
      exact absurd (unnamed.symm.trans isId) (by decide)
    · intro all
      exact absurd (unnamed.symm.trans (isId.trans all.2.1)).symm all.1
  · have kept : withMsgId message = message := by
      simp [withMsgId, unnamed]
    rw [kept, isId, isName, isInfo]
    constructor
    · intro same
      have otherFits : (cString msgId).length + (cString methodName).length +
          (cString errInfo).length < 2 ^ 31 := by
        have idCut := cut msgId
        have nameCut := cut methodName
        have infoCut := cut errInfo
        omega
      rcases rawFrame_inj (by omega) otherFits same with ⟨sameId, sameName, sameInfo, sameSum⟩
      refine ⟨fun empty => ?_, sameId.symm, sameName.symm, sameInfo.symm, sameSum⟩
      rw [empty] at isId
      exact unnamed isId
    · intro all
      rw [all.2.1, all.2.2.1, all.2.2.2.1, all.2.2.2.2]

end Compare

/-- An iteration emits a message whose encoding is the frame it was read from
exactly when the frame has an id, holds no NUL in a text, and carries the
checksum of the encoder. -/
theorem emitted_image_iff {initial buffer : TcpBuffer} (valid : initial.Valid)
    (reaches : Loop.Reaches body initial buffer) {candidate : Candidate}
    {message : TinyPBProtocol} (emits : Emits buffer candidate message) :
    window buffer.buffer candidate.startIndex (candidate.endIndex + 1).toNat = frame message ↔
      Canonical buffer.buffer candidate.startIndex := by
  have bufferValid := reaches_valid valid reaches
  have fitsInt := bufferValid.sizeFitsInt
  rcases emits_layout bufferValid emits with ⟨layout, endIndex, inside⟩
  generalize candidate.startIndex = i at *
  have total := layout.total
  have finish : endAt buffer.buffer i = i + lengthAt buffer.buffer (i + 1) - 1 := rfl
  have four := checkSumBytes_length (show 3 ≤ endAt buffer.buffer i by omega) inside
  have length := @rawFrame_length (fieldBytes buffer.buffer (i + 5 : Nat))
    (fieldBytes buffer.buffer (methodNameLenAt buffer.buffer i))
    (fieldBytes buffer.buffer (errInfoLenAt buffer.buffer i)) message.pbData _ message.errCode four
  have whole := layout.occurs.take_eq
  rw [length] at whole
  have size : (candidate.endIndex + 1).toNat - i = 26 +
      (fieldBytes buffer.buffer (i + 5 : Nat)).length +
      (fieldBytes buffer.buffer (methodNameLenAt buffer.buffer i)).length +
      (fieldBytes buffer.buffer (errInfoLenAt buffer.buffer i)).length +
      message.pbData.length := by omega
  rw [window, size, whole, rawFrame_eq_frame_iff (by omega) layout.msgId layout.methodName
    layout.errInfo]
  constructor
  · intro all
    exact ⟨all.1, all.2.1, all.2.2.1, all.2.2.2.1, all.2.2.2.2⟩
  · intro canonical
    exact ⟨canonical.msgId_ne_nil, canonical.msgId, canonical.methodName, canonical.errInfo,
      canonical.checkSum⟩

/-- The frame of `ping` alone in a buffer, with these bytes for its checksum. -/
def checkedPing (checkSum : Bytes) : TcpBuffer where
  readIndex := 0
  writeIndex := 42
  buffer := (frame ping).take 37 ++ checkSum ++ [pbEnd, 0]

theorem emitted_image_ping :
    Emits (checkedPing (htonl 1)) ⟨0, 41, 42⟩ ping.measured ∧
      body (checkedPing (htonl 1)) =
        .ok (.again ((checkedPing (htonl 1)).moveReadIndex 42) (some ping.measured)) ∧
      window (checkedPing (htonl 1)).buffer 0 42 = frame ping.measured := by
  have valid : (checkedPing (htonl 1)).Valid :=
    ⟨by decide +kernel, by decide +kernel, by decide +kernel⟩
  have emits : Emits (checkedPing (htonl 1)) ⟨0, 41, 42⟩ ping.measured :=
    ⟨by decide +kernel, by decide +kernel⟩
  have canonical : Canonical (checkedPing (htonl 1)).buffer 0 :=
    ⟨by decide +kernel, by decide +kernel, by decide +kernel, by decide +kernel,
      by decide +kernel⟩
  exact ⟨emits, body_emits_iff.mpr ⟨_, emits, rfl⟩,
    (emitted_image_iff valid .refl emits).mpr canonical⟩

/-- A frame with a wrong checksum is emitted all the same. -/
theorem emitted_image_corrupted :
    (checkedPing [1, 2, 3, 4]).Spare ∧
      Emits (checkedPing [1, 2, 3, 4]) ⟨0, 41, 42⟩ ping.measured ∧
      body (checkedPing [1, 2, 3, 4]) =
        .ok (.again ((checkedPing [1, 2, 3, 4]).moveReadIndex 42) (some ping.measured)) ∧
      window (checkedPing [1, 2, 3, 4]).buffer 0 42 ≠ frame ping.measured := by
  have spare : (checkedPing [1, 2, 3, 4]).Spare :=
    ⟨⟨by decide +kernel, by decide +kernel, by decide +kernel⟩, by decide +kernel⟩
  have emits : Emits (checkedPing [1, 2, 3, 4]) ⟨0, 41, 42⟩ ping.measured :=
    ⟨by decide +kernel, by decide +kernel⟩
  exact ⟨spare, emits, body_emits_iff.mpr ⟨_, emits, rfl⟩, by decide +kernel⟩

end NetRpc.TinyPBCoder
