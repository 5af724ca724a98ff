import NetRpc.Coder.Decode
import Mathlib.Data.List.TakeWhile

/-! # What the decoder emits

The string fields of an emitted message come out of the decoder's local arrays
as C strings, so they fit these arrays and hold no NUL.
-/

namespace NetRpc.TinyPBCoder

open Traced

variable {tmp : Bytes}

/-- A string read from a local array. -/
def FromArray (capacity : Nat) (text : Bytes) : Prop :=
  0 ∉ text ∧ text.length < capacity

theorem copyString_fromArray {capacity : Nat} {index length : Int} {text : Bytes}
    (yields : (copyString capacity tmp index length).Yields text) :
    FromArray capacity text := by
  simp only [copyString, yields_bind_iff, yields_touch_iff, yields_pure_iff] at yields
  rcases yields with ⟨_, _, _, terminated, rfl⟩
  refine ⟨fun member => ?_, terminated⟩
  have nonzero := List.mem_takeWhile_imp member
  simp at nonzero

theorem readField_fromArray {capacity : Nat} {lenIndex : Int} {field : Field}
    (yields : (readField capacity tmp lenIndex).Yields field) :
    FromArray capacity field.text := by
  simp only [readField, yields_bind_iff, yields_pure_iff] at yields
  rcases yields with ⟨_, _, _, _, text, copied, _, _, rfl⟩
  exact copyString_fromArray copied

/-- The string fields of an emitted message. -/
structure Emitted (message : TinyPBProtocol) : Prop where
  msgId : FromArray 100 message.msgId
  methodName : FromArray 512 message.methodName
  errInfo : FromArray 512 message.errInfo

theorem parse_emitted {candidate : Candidate} {message : TinyPBProtocol}
    (yields : (parse tmp candidate).Yields (some message)) : Emitted message := by
  simp only [parse, yields_bind_iff] at yields
  rcases yields with ⟨_, _, yields⟩
  split at yields
  · cases yields_pure_iff.mp yields
  · rcases yields_bind_iff.mp yields with ⟨msgId, readMsgId, yields⟩
    split at yields
    · cases yields_pure_iff.mp yields
    · rcases yields_bind_iff.mp yields with ⟨methodName, readMethodName, yields⟩
      split at yields
      · cases yields_pure_iff.mp yields
      · simp only [yields_bind_iff] at yields
        rcases yields with ⟨_, _, _, _, yields⟩
        split at yields
        · cases yields_pure_iff.mp yields
        · simp only [yields_bind_iff, yields_pure_iff] at yields
          rcases yields with ⟨errInfo, readErrInfo, _, _, isMessage⟩
          cases isMessage
          exact ⟨readField_fromArray readMsgId, readField_fromArray readMethodName,
            readField_fromArray readErrInfo⟩

theorem body_emitted {buffer next : TcpBuffer} {message : TinyPBProtocol}
    (passed : body buffer = .ok (.again next (some message))) : Emitted message := by
  have yields : (iteration buffer).Yields (.again next (some message)) := passed
  rw [iteration, yields_bind_iff] at yields
  rcases yields with ⟨candidate, _, yields⟩
  cases candidate with
  | none => cases yields_pure_iff.mp yields
  | some candidate =>
      simp only [takeCandidate, yields_bind_iff, yields_pure_iff] at yields
      rcases yields with ⟨parsed, yieldsParsed, equal⟩
      cases equal
      exact parse_emitted yieldsParsed

theorem decode_emitted {fuel : Nat} {messages : List TinyPBProtocol}
    {buffer final : TcpBuffer} (decoded : decode fuel [] buffer = some (.ok (messages, final))) :
    ∀ message ∈ messages, Emitted message := by
  apply Loop.run_items (fun _ _ _ passed => body_emitted passed) decoded
  intro message member
  cases member

end NetRpc.TinyPBCoder
