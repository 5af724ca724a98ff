import NetRpc.Coder.Accesses

/-! # The lengths that arrive from the wire

The decoder checks hardly any of the lengths it reads. This module says, in
terms of the bytes alone, which lengths keep one pass of the loop inside a
region of the storage, and proves that these are the only ones that do.
-/

namespace NetRpc

/-- The region reaches over the readable bytes and stays inside the storage. -/
structure Region.Covers (region : Region) (buffer : TcpBuffer) : Prop where
  lowerLe : region.lower ≤ buffer.readIndex
  upperGe : buffer.writeIndex ≤ region.upper
  upperLe : region.upper ≤ buffer.buffer.length
  fitsInt : buffer.buffer.length < 2 ^ 31

namespace TinyPBCoder

open TinyPBProtocol Traced

def lengthAt (tmp : Bytes) (index : Int) : Int := (int32At tmp index).toInt

/-- The scan reads a packet length behind position `i`. -/
def Marks (tmp : Bytes) (writeIndex i : Nat) : Prop :=
  tmp.getD i 0 = pbStart ∧ i + 1 < writeIndex

/-- Where a frame that starts at `i` has its end marker. -/
def endAt (tmp : Bytes) (i : Nat) : Int := i + lengthAt tmp (i + 1) - 1

/-- The scan takes position `i` for the start of a frame. -/
def Accepts (tmp : Bytes) (writeIndex i : Nat) : Prop :=
  Marks tmp writeIndex i ∧ endAt tmp i < writeIndex ∧
    tmp.getD (endAt tmp i).toNat 0 = pbEnd

instance (tmp : Bytes) (writeIndex i : Nat) : Decidable (Marks tmp writeIndex i) :=
  inferInstanceAs (Decidable (_ ∧ _))

instance (tmp : Bytes) (writeIndex i : Nat) : Decidable (Accepts tmp writeIndex i) :=
  inferInstanceAs (Decidable (_ ∧ _))

def ProbeFits (region : Region) (tmp : Bytes) (writeIndex i : Nat) : Prop :=
  i + 5 ≤ region.upper ∧
    -2 ^ 31 < i + lengthAt tmp (i + 1) ∧ i + lengthAt tmp (i + 1) < 2 ^ 31 ∧
    (endAt tmp i < writeIndex → region.lower ≤ endAt tmp i)

/-- The length at `index` and the text behind it fit the region and the local
array. -/
def FieldFits (region : Region) (capacity : Nat) (tmp : Bytes) (index : Int) : Prop :=
  index + 4 ≤ region.upper ∧ 0 ≤ lengthAt tmp index ∧
    lengthAt tmp index + region.slack ≤ capacity ∧
    index + 4 + lengthAt tmp index ≤ region.upper ∧
    (cString (copied capacity tmp (index + 4) (lengthAt tmp index))).length < capacity

def afterField (tmp : Bytes) (index : Int) : Int := index + 4 + lengthAt tmp index

def PbDataFits (region : Region) (tmp : Bytes) (pkLen : Int)
    (msgIdAt methodNameAt errInfoAt : Int) : Prop :=
  let length := pkLen - lengthAt tmp methodNameAt - lengthAt tmp msgIdAt -
    lengthAt tmp errInfoAt - 2 - 24
  0 ≤ length ∧ afterField tmp errInfoAt + length ≤ region.upper

/-- The fields of the frame at `i` fit, as far as the decoder looks at them. -/
def FieldsFit (region : Region) (tmp : Bytes) (i : Nat) : Prop :=
  let msgIdAt : Int := i + 5
  let methodNameAt := afterField tmp msgIdAt
  let errCodeAt := afterField tmp methodNameAt
  let errInfoAt := errCodeAt + 4
  msgIdAt < endAt tmp i →
    FieldFits region 100 tmp msgIdAt ∧
      (methodNameAt < endAt tmp i →
        FieldFits region 512 tmp methodNameAt ∧
          (errCodeAt < endAt tmp i →
            errCodeAt + 4 ≤ region.upper ∧
              (errInfoAt < endAt tmp i →
                FieldFits region 512 tmp errInfoAt ∧
                  PbDataFits region tmp (lengthAt tmp (i + 1)) msgIdAt methodNameAt
                    errInfoAt)))

/-- A scan that starts at `start` comes to position `i`: it accepts nothing on
the way. -/
def ComesTo (tmp : Bytes) (writeIndex start i : Nat) : Prop :=
  start ≤ i ∧ ∀ k, start ≤ k → k < i → ¬Accepts tmp writeIndex k

def Scanned (buffer : TcpBuffer) (i : Nat) : Prop :=
  ComesTo buffer.buffer buffer.writeIndex buffer.readIndex i ∧ i < buffer.writeIndex

/-- Every length that one pass reads fits. -/
structure LengthsFit (region : Region) (buffer : TcpBuffer) : Prop where
  scan : ∀ i, Scanned buffer i → Marks buffer.buffer buffer.writeIndex i →
    ProbeFits region buffer.buffer buffer.writeIndex i
  fields : ∀ i, Scanned buffer i → Accepts buffer.buffer buffer.writeIndex i →
    FieldsFit region buffer.buffer i

/-! ## Fields -/

section Fields

variable {tmp : Bytes} {region : Region} {α : Type}

/-- The field that the decoder reads at `index` when its length fits. -/
def fieldOf (capacity : Nat) (tmp : Bytes) (index : Int) : Field where
  length := int32At tmp index
  text := cString (copied capacity tmp (index + 4) (lengthAt tmp index))
  next := afterField tmp index

theorem fieldOf_next (capacity : Nat) (tmp : Bytes) (index : Int) :
    (fieldOf capacity tmp index).next = afterField tmp index := rfl

theorem FieldFits.le_afterField {capacity : Nat} {index lower : Int}
    (fits : FieldFits region capacity tmp index) (above : lower ≤ index) :
    lower ≤ afterField tmp index := by
  have nonnegative := fits.2.1
  rw [afterField]
  omega

variable (inStorage : region.upper ≤ tmp.length) (fitsInt : tmp.length < 2 ^ 31)

include inStorage fitsInt

theorem within_readField {capacity : Nat} {index : Int} (lower : region.lower ≤ index) :
    (readField capacity tmp index).Within (Access.Inside region) ↔
      FieldFits region capacity tmp index := by
  rw [readField, within_readInt32_bind inStorage, FieldFits, and_assoc,
    and_iff_right lower]
  apply and_congr_right
  intro lengthInside
  have textIndex : InIntRange (index + 4) := by
    constructor <;> omega
  have added : index + (4 : Nat) = index + 4 := rfl
  rw [within_addSize_bind added textIndex, within_copyString_bind inStorage,
    within_addInt_bind inStorage]
  simp only [within_pure, and_true, lengthAt, InIntRange]
  generalize (int32At tmp index).toInt = length
  omega

theorem readField_yields {capacity : Nat} {index : Int} (lower : region.lower ≤ index)
    (fits : FieldFits region capacity tmp index) :
    (readField capacity tmp index).Yields (fieldOf capacity tmp index) := by
  rcases fits with ⟨lengthInside, nonnegative, short, textInside, terminated⟩
  have textIndex : InIntRange (index + 4) := by
    constructor <;> omega
  have next : InIntRange (index + 4 + (int32At tmp index).toInt) := by
    simp only [lengthAt] at nonnegative textInside
    constructor <;> omega
  have copyLegal : Legal tmp (.copy capacity (index + 4) (int32At tmp index).toInt) := by
    simp only [lengthAt] at nonnegative short textInside
    simp only [Access.Inside, storageRegion]
    omega
  apply (readInt32_yields (by omega) (by omega)).bind
  apply (addSize_yields rfl textIndex).bind
  apply (copyString_yields copyLegal terminated).bind
  apply (addInt_yields rfl next).bind
  exact yields_pure _

theorem within_readField_bind {capacity : Nat} {index : Int}
    (lower : region.lower ≤ index) (next : Field → Traced (Legal tmp) α) :
    (readField capacity tmp index >>= next).Within (Access.Inside region) ↔
      FieldFits region capacity tmp index ∧
        (next (fieldOf capacity tmp index)).Within (Access.Inside region) := by
  have iff := @within_readField _ _ inStorage fitsInt capacity _ lower
  rw [within_bind_of_yields next, iff]
  intro within
  exact readField_yields inStorage fitsInt lower (iff.mp within)

theorem within_readPbData {pkLen : Int32} {msgIdAt methodNameAt errInfoAt : Int}
    {msgIdSize methodNameSize errInfoSize : Nat}
    (msgId : FieldFits region msgIdSize tmp msgIdAt)
    (methodName : FieldFits region methodNameSize tmp methodNameAt)
    (errInfo : FieldFits region errInfoSize tmp errInfoAt)
    (lower : region.lower ≤ errInfoAt) :
    (readPbData tmp pkLen (fieldOf msgIdSize tmp msgIdAt)
        (fieldOf methodNameSize tmp methodNameAt)
        (fieldOf errInfoSize tmp errInfoAt)).Within (Access.Inside region) ↔
      PbDataFits region tmp pkLen.toInt msgIdAt methodNameAt errInfoAt := by
  have msgIdNonnegative := msgId.2.1
  have methodNameNonnegative := methodName.2.1
  have errInfoNonnegative := errInfo.2.1
  have bound := pkLen.toInt_lt
  rw [readPbData, within_addInt_bind inStorage,
    within_touch_bind (legal_of_inside inStorage)]
  simp only [within_pure, and_true, Access.Inside, fieldOf, PbDataFits, InIntRange,
    afterField]
  simp only [lengthAt] at msgIdNonnegative methodNameNonnegative errInfoNonnegative ⊢
  generalize (int32At tmp msgIdAt).toInt = msgIdLen at *
  generalize (int32At tmp methodNameAt).toInt = methodNameLen at *
  generalize (int32At tmp errInfoAt).toInt = errInfoLen at *
  generalize pkLen.toInt = length at *
  omega

theorem within_parse {i : Nat} {candidate : Candidate} (lower : region.lower ≤ i)
    (lengthInside : i + 5 ≤ region.upper)
    (endIndex : candidate.endIndex = endAt tmp i) (startIndex : candidate.startIndex = i)
    (pkLen : candidate.pkLen = int32At tmp (i + 1)) :
    (parse tmp candidate).Within (Access.Inside region) ↔ FieldsFit region tmp i := by
  have msgIdIndex : ((i : Int) + (1 + 4 : Nat)) = i + 5 := rfl
  have msgIdInRange : InIntRange (i + 5) := by
    constructor <;> omega
  rw [parse, FieldsFit, startIndex, endIndex, pkLen,
    within_addSize_bind msgIdIndex msgIdInRange, within_check]
  apply imp_congr_right
  intro _
  have msgIdLower : (region.lower : Int) ≤ i + 5 := by omega
  rw [within_readField_bind inStorage fitsInt msgIdLower, fieldOf_next, within_check]
  apply and_congr_right
  intro msgId
  apply imp_congr_right
  intro _
  have methodNameLower := msgId.le_afterField msgIdLower
  rw [within_readField_bind inStorage fitsInt methodNameLower, fieldOf_next, within_check]
  apply and_congr_right
  intro methodName
  apply imp_congr_right
  intro _
  have errCodeLower := methodName.le_afterField methodNameLower
  rw [within_readInt32_bind inStorage, and_iff_right errCodeLower]
  apply and_congr_right
  intro errCodeInside
  have errInfoLower : (region.lower : Int) ≤
      afterField tmp (afterField tmp (i + 5)) + 4 := by omega
  have errInfoIndex : afterField tmp (afterField tmp (i + 5)) + (4 : Nat) =
      afterField tmp (afterField tmp (i + 5)) + 4 := rfl
  have errInfoInRange : InIntRange (afterField tmp (afterField tmp (i + 5)) + 4) := by
    constructor <;> omega
  rw [within_addSize_bind errInfoIndex errInfoInRange, within_check]
  apply imp_congr_right
  intro _
  rw [within_readField_bind inStorage fitsInt errInfoLower]
  apply and_congr_right
  intro errInfo
  rw [within_bind, within_readPbData inStorage fitsInt msgId methodName errInfo errInfoLower]
  exact and_iff_left fun _ _ => within_pure _ _

end Fields

end TinyPBCoder

end NetRpc
