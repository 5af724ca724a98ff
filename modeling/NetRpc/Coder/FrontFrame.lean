import NetRpc.Coder.Lengths

/-! # A complete frame at the read cursor

One pass of the decoder over a buffer whose readable bytes begin with the
encoding of an admissible message: the pass emits that message and consumes
exactly its frame.
-/

namespace NetRpc.TinyPBCoder

open TinyPBProtocol Traced

section Fields

variable {tmp : Bytes}

theorem inIntRange_natCast {value : Nat} (fits : value < 2 ^ 31) :
    InIntRange value := by
  constructor <;> omega

theorem int32At_of_occurs {index : Nat} {value : Int32}
    (occurs : OccursAt tmp index (htonl value)) : int32At tmp index = value := by
  rcases occurs with ⟨rest, equal⟩
  rw [int32At, Int.toNat_natCast, ← equal, getInt32FromNetByte_htonl_append]

theorem cString_append_zeros {text : Bytes} (nulFree : 0 ∉ text) (count : Nat) :
    cString (text ++ List.replicate count 0) = text := by
  have unread : cString (List.replicate count (0 : Byte)) = [] := by
    cases count <;> simp [cString, List.replicate_succ]
  rw [cString, List.takeWhile_append_of_pos]
  · exact (congrArg (text ++ ·) unread).trans (List.append_nil text)
  · intro letter member
    simp only [bne_iff_ne, ne_eq]
    exact fun isNul => nulFree (isNul ▸ member)

/-- The field whose length and text were encoded at `index`. -/
def fieldAt (index : Nat) (text : Bytes) : Field where
  length := .ofNat text.length
  text := text
  next := (index + 4 + text.length : Nat)

theorem fieldAt_next (index : Nat) (text : Bytes) :
    (fieldAt index text).next = (index + 4 + text.length : Nat) := rfl

/-- A NUL-free text that leaves room for the terminator is read whole. -/
theorem readField_text {capacity index : Nat} {text : Bytes}
    (length : int32At tmp index = .ofNat text.length)
    (occurs : OccursAt tmp (index + 4) text)
    (inside : index + 4 + text.length ≤ tmp.length) (fits : tmp.length < 2 ^ 31)
    (short : text.length < capacity) (nulFree : 0 ∉ text) :
    (readField capacity tmp index).Yields (fieldAt index text) := by
  have textIndex : ((index : Int) + 4).toNat = index + 4 := by omega
  have copiedWhole : cString (copied capacity tmp (index + 4) text.length) = text := by
    rw [copied, textIndex, Int.toNat_natCast, occurs.take_eq,
      cString_append_zeros nulFree]
  have textLength : lengthAt tmp index = text.length := by
    rw [lengthAt, length]
    exact Int32.toInt_ofNat_of_lt (by omega)
  have fieldFits : FieldFits (storageRegion tmp) capacity tmp index := by
    rw [FieldFits, textLength, copiedWhole]
    simp only [storageRegion]
    omega
  have read : fieldOf capacity tmp index = fieldAt index text := by
    rw [fieldOf, afterField, textLength, copiedWhole, length]
    rfl
  rw [← read]
  exact readField_yields (Nat.le_refl _) fits (Int.natCast_nonneg index) fieldFits

end Fields

/-! ## The fields of a frame -/

/-- Where the fields of an encoded message stand when its frame starts at
`start`. -/
structure FrameAt (tmp : Bytes) (start : Nat) (message : TinyPBProtocol) : Prop where
  marker : tmp.getD start 0 = pbStart
  pkLen : int32At tmp (start + 1 : Nat) = .ofNat message.frameLength
  msgIdLen : int32At tmp (start + 5 : Nat) = .ofNat message.msgId.length
  msgId : OccursAt tmp (start + 5 + 4) message.msgId
  methodNameLen : int32At tmp (start + 5 + 4 + message.msgId.length : Nat) =
    .ofNat message.methodName.length
  methodName : OccursAt tmp (start + 5 + 4 + message.msgId.length + 4) message.methodName
  errCode : int32At tmp (start + 5 + 4 + message.msgId.length + 4 +
    message.methodName.length : Nat) = message.errCode
  errInfoLen : int32At tmp (start + 5 + 4 + message.msgId.length + 4 +
    message.methodName.length + 4 : Nat) = .ofNat message.errInfo.length
  errInfo : OccursAt tmp (start + 5 + 4 + message.msgId.length + 4 +
    message.methodName.length + 4 + 4) message.errInfo
  pbData : OccursAt tmp (start + 5 + 4 + message.msgId.length + 4 +
    message.methodName.length + 4 + 4 + message.errInfo.length) message.pbData
  finish : tmp.getD (start + message.frameLength - 1) 0 = pbEnd
  inside : start + message.frameLength ≤ tmp.length

theorem frameAt_of_occurs {tmp : Bytes} {start : Nat} {message : TinyPBProtocol}
    (admissible : message.Admissible) (occurs : OccursAt tmp start (frame message)) :
    FrameAt tmp start message := by
  have length := admissible.frame_length
  have inside : start + message.frameLength ≤ tmp.length := by
    have positive := frame_length_pos message
    have fits := occurs.length_le
    rw [List.length_drop] at fits
    omega
  simp only [frame, admissible.withMsgId_eq, OccursAt.append_iff,
    List.length_append, htonl_length, List.length_singleton] at occurs
  rcases occurs with ⟨⟨⟨⟨⟨⟨⟨⟨⟨⟨⟨marker, pkLen⟩, msgIdLen⟩, msgId⟩, methodNameLen⟩,
    methodName⟩, errCode⟩, errInfoLen⟩, errInfo⟩, pbData⟩, _⟩, finish⟩
  have at_index {bytes : Bytes} {index other : Nat}
      (there : OccursAt tmp index bytes) (equal : index = other) :
      OccursAt tmp other bytes := equal ▸ there
  constructor
  · exact marker.getD_eq
  · exact int32At_of_occurs pkLen
  · exact int32At_of_occurs (at_index msgIdLen (by omega))
  · exact at_index msgId (by omega)
  · exact int32At_of_occurs (at_index methodNameLen (by omega))
  · exact at_index methodName (by omega)
  · exact int32At_of_occurs (at_index errCode (by omega))
  · exact int32At_of_occurs (at_index errInfoLen (by omega))
  · exact at_index errInfo (by omega)
  · exact at_index pbData (by omega)
  · exact (at_index finish (by rw [frameLength_eq]; omega)).getD_eq
  · exact inside

/-- No frame is a beginning of another one, since they declare their length. -/
theorem frame_prefixFree {message other : TinyPBProtocol} (admissible : message.Admissible)
    (otherAdmissible : other.Admissible) (isPrefix : frame message <+: frame other) :
    frame message = frame other := by
  have first := frameAt_of_occurs admissible (show OccursAt (frame other) 0 _ from isPrefix)
  have second := frameAt_of_occurs otherAdmissible
    (show OccursAt (frame other) 0 _ from List.prefix_rfl)
  have lengths := congrArg Int32.toInt (first.pkLen.symm.trans second.pkLen)
  rw [Int32.toInt_ofNat_of_lt admissible.frameLength_fits,
    Int32.toInt_ofNat_of_lt otherAdmissible.frameLength_fits] at lengths
  apply isPrefix.eq_of_length
  rw [admissible.frame_length, otherAdmissible.frame_length]
  exact Int.ofNat_inj.mp lengths

section Parse

variable {tmp : Bytes} {start : Nat} {message : TinyPBProtocol}

/-- What the scan finds where a frame starts. -/
structure Delimits (candidate : Candidate) (start : Nat)
    (message : TinyPBProtocol) : Prop where
  startIndex : candidate.startIndex = start
  endIndex : candidate.endIndex = (start + message.frameLength - 1 : Nat)
  pkLen : candidate.pkLen = .ofNat message.frameLength

/-- The scan accepts the frame at the position where it starts. -/
theorem probe_frame {writeIndex : Nat} (frameAt : FrameAt tmp start message)
    (fits : tmp.length < 2 ^ 31)
    (within : start + message.frameLength ≤ writeIndex) :
    ∃ candidate, Delimits candidate start message ∧
      (probe tmp writeIndex start).Yields (some candidate) := by
  have inside := frameAt.inside
  have total := frameLength_eq message
  have notBeyond :
      ¬(writeIndex : Int) ≤ (start + message.frameLength - 1 : Nat) := by omega
  have marker := @readChar_yields tmp start (by omega) (by omega)
  have lengthBytes := @readInt32_yields tmp (start + 1 : Nat) (by omega) (by omega)
  have finish := @readChar_yields tmp (start + message.frameLength - 1 : Nat)
    (by omega) (by omega)
  have last : (addInt tmp (start + message.frameLength : Nat) (-1)).Yields
      (start + message.frameLength - 1 : Nat) :=
    addInt_yields (by omega) (inIntRange_natCast (by omega))
  have next : (addInt tmp start message.frameLength).Yields
      (start + message.frameLength : Nat) :=
    addInt_yields (Int.natCast_add _ _).symm (inIntRange_natCast (by omega))
  have length : (Int32.ofNat message.frameLength).toInt = message.frameLength :=
    Int32.toInt_ofNat_of_lt (by omega)
  refine ⟨⟨start, (start + message.frameLength - 1 : Nat),
    .ofNat message.frameLength⟩, ⟨rfl, rfl, rfl⟩, ?_⟩
  rw [frameAt.pkLen] at lengthBytes
  rw [Int.toNat_natCast, frameAt.marker] at marker
  rw [Int.toNat_natCast, frameAt.finish] at finish
  apply marker.bind
  rw [if_pos rfl, if_pos (by omega)]
  apply lengthBytes.bind
  rw [length]
  apply next.bind
  apply last.bind
  rw [if_neg notBeyond]
  apply finish.bind
  rw [if_pos rfl]
  exact yields_pure _

/-- What the packet length leaves for `pb_data` is its length. -/
theorem readPbData_yields {msgIdAt methodNameAt errInfoAt : Nat}
    (occurs : OccursAt tmp (errInfoAt + 4 + message.errInfo.length) message.pbData)
    (inside : errInfoAt + 4 + message.errInfo.length + message.pbData.length ≤ tmp.length)
    (frameFits : message.frameLength < 2 ^ 31) :
    (readPbData tmp (.ofNat message.frameLength) (fieldAt msgIdAt message.msgId)
      (fieldAt methodNameAt message.methodName)
      (fieldAt errInfoAt message.errInfo)).Yields message.pbData := by
  have total := frameLength_eq message
  have msgId : (Int32.ofNat message.msgId.length).toInt = message.msgId.length :=
    Int32.toInt_ofNat_of_lt (by omega)
  have methodName : (Int32.ofNat message.methodName.length).toInt =
      message.methodName.length := Int32.toInt_ofNat_of_lt (by omega)
  have errInfo : (Int32.ofNat message.errInfo.length).toInt =
      message.errInfo.length := Int32.toInt_ofNat_of_lt (by omega)
  have pkLen : (Int32.ofNat message.frameLength).toInt = message.frameLength :=
    Int32.toInt_ofNat_of_lt frameFits
  have remaining : (addInt tmp message.frameLength (-message.methodName.length -
      message.msgId.length - message.errInfo.length - 2 - 24)).Yields
        message.pbData.length :=
    addInt_yields (by omega) (inIntRange_natCast (by omega))
  have text : Legal tmp
      (.text (errInfoAt + 4 + message.errInfo.length : Nat) message.pbData.length) := by
    simp only [Access.Inside, storageRegion]
    omega
  simp only [readPbData, fieldAt, msgId, methodName, errInfo, pkLen]
  apply remaining.bind
  apply (yields_touch text).bind
  rw [Int.toNat_natCast, Int.toNat_natCast, occurs.take_eq]
  exact yields_pure _

/-- The decoder's nine offsets are those of the encoder. -/
theorem parse_frame (admissible : message.Admissible)
    (frameAt : FrameAt tmp start message) (fits : tmp.length < 2 ^ 31)
    {candidate : Candidate} (delimits : Delimits candidate start message) :
    (parse tmp candidate).Yields (some message.measured) := by
  have inside := frameAt.inside
  have total := frameLength_eq message
  have endIndex := delimits.endIndex
  have beforeMsgIdLen : ¬candidate.endIndex ≤ (start + 5 : Nat) := by omega
  have beforeMethodNameLen :
      ¬candidate.endIndex ≤ (start + 5 + 4 + message.msgId.length : Nat) := by omega
  have beforeErrCode : ¬candidate.endIndex ≤ (start + 5 + 4 + message.msgId.length + 4 +
      message.methodName.length : Nat) := by omega
  have beforeErrInfoLen : ¬candidate.endIndex ≤ (start + 5 + 4 + message.msgId.length + 4 +
      message.methodName.length + 4 : Nat) := by omega
  have msgId := readField_text frameAt.msgIdLen frameAt.msgId (by omega) fits
    admissible.msgId_short admissible.msgId_nulFree
  have methodName := readField_text frameAt.methodNameLen frameAt.methodName
    (by omega) fits admissible.methodName_short admissible.methodName_nulFree
  have errCode := @readInt32_yields tmp (start + 5 + 4 + message.msgId.length + 4 +
    message.methodName.length : Nat) (by omega) (by omega)
  have errInfo := readField_text frameAt.errInfoLen frameAt.errInfo
    (by omega) fits admissible.errInfo_short admissible.errInfo_nulFree
  have pbData := @readPbData_yields tmp message (start + 5)
    (start + 5 + 4 + message.msgId.length)
    (start + 5 + 4 + message.msgId.length + 4 + message.methodName.length + 4)
    frameAt.pbData (by omega) (by omega)
  have msgIdLenIndex : (addSize tmp start (1 + 4)).Yields (start + 5 : Nat) :=
    addSize_yields (by omega) (inIntRange_natCast (by omega))
  have errorInfoLenIndex : (addSize tmp (start + 5 + 4 + message.msgId.length + 4 +
      message.methodName.length : Nat) 4).Yields (start + 5 + 4 + message.msgId.length +
        4 + message.methodName.length + 4 : Nat) :=
    addSize_yields (by omega) (inIntRange_natCast (by omega))
  rw [frameAt.errCode] at errCode
  rw [parse, delimits.startIndex, delimits.pkLen]
  apply msgIdLenIndex.bind
  rw [if_neg beforeMsgIdLen]
  apply msgId.bind
  rw [fieldAt_next, if_neg beforeMethodNameLen]
  apply methodName.bind
  rw [fieldAt_next, if_neg beforeErrCode]
  apply errCode.bind
  apply errorInfoLenIndex.bind
  rw [if_neg beforeErrInfoLen]
  apply errInfo.bind
  apply pbData.bind
  exact yields_pure _

end Parse

/-! ## One pass of the outer loop -/

theorem scan_yields_here {tmp : Bytes} {writeIndex i remaining : Nat}
    {candidate : Candidate} (found : (probe tmp writeIndex i).Yields (some candidate)) :
    (scan tmp writeIndex i (remaining + 1)).Yields (some candidate) :=
  found.bind (yields_pure _)

section Body

variable {buffer : TcpBuffer} {message : TinyPBProtocol} {rest : Bytes}

/-- A complete frame at the read cursor ends in front of the write cursor. -/
theorem frame_within (valid : buffer.Valid) (admissible : message.Admissible)
    (readable : buffer.readable = frame message ++ rest) :
    buffer.readIndex + message.frameLength + rest.length = buffer.writeIndex := by
  have size := congrArg List.length readable
  rw [TcpBuffer.readable_length valid, List.length_append, admissible.frame_length] at size
  have ordered := valid.readLeWrite
  have total := frameLength_eq message
  simp only [TcpBuffer.readAble] at size
  omega

/-- A pass over a buffer with a complete frame at the read cursor emits its
message and consumes the frame. -/
theorem body_frame (spare : buffer.Spare) (admissible : message.Admissible)
    (readable : buffer.readable = frame message ++ rest) :
    body buffer =
      .ok (.again (buffer.moveReadIndex message.frameLength) (some message.measured)) := by
  have within := frame_within spare.toValid admissible readable
  have total := frameLength_eq message
  have frameAt := frameAt_of_occurs admissible (OccursAt.of_window readable)
  rcases probe_frame frameAt spare.sizeFitsInt (show _ ≤ buffer.writeIndex by omega) with
    ⟨candidate, delimits, found⟩
  have amount : candidate.endIndex - candidate.startIndex + 1 = message.frameLength := by
    rw [delimits.endIndex, delimits.startIndex]
    omega
  have remaining : buffer.writeIndex - buffer.readIndex =
      (buffer.writeIndex - buffer.readIndex - 1) + 1 := by omega
  have taken : (takeCandidate buffer candidate).Yields
      (.again (buffer.moveReadIndex message.frameLength) (some message.measured)) := by
    rw [takeCandidate, amount]
    exact (parse_frame admissible frameAt spare.sizeFitsInt delimits).bind (yields_pure _)
  have yields : (iteration buffer).Yields
      (.again (buffer.moveReadIndex message.frameLength) (some message.measured)) := by
    rw [iteration, remaining]
    exact (scan_yields_here found).bind taken
  exact yields

theorem moveReadIndex_frame_spare (spare : buffer.Spare) (admissible : message.Admissible)
    (readable : buffer.readable = frame message ++ rest) :
    (buffer.moveReadIndex message.frameLength).Spare := by
  have within := frame_within spare.toValid admissible readable
  exact TcpBuffer.moveReadIndex_spare spare (by omega)

theorem moveReadIndex_frame_readable (spare : buffer.Spare)
    (admissible : message.Admissible) (readable : buffer.readable = frame message ++ rest) :
    (buffer.moveReadIndex message.frameLength).readable = rest := by
  have within := frame_within spare.toValid admissible readable
  have writeLtSize := spare.writeLtSize
  rw [TcpBuffer.moveReadIndex_drop spare.toValid (by omega) (by omega), readable,
    ← admissible.frame_length, List.drop_left]

end Body

end NetRpc.TinyPBCoder
