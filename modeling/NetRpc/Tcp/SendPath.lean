import Mathlib.Data.List.Nodup
import NetRpc.Coder.Protocol
import NetRpc.Foundation.Transition

/-! # TcpConnection::reply and TcpConnection::onWrite

The sending half of one connected TcpConnection. Frames are appended to the
out-buffer by replies and, on a client, by `onWrite` itself; the loop of
`onWrite` hands the readable bytes to `write()`. Next to the connection the
state carries the history of its byte stream.
-/

namespace NetRpc

inductive TcpConnectionType
  | byServer
  | byClient
deriving DecidableEq

namespace TinyPBCoder

theorem encode_spec : ∀ {messages stamped : List TinyPBProtocol} {outBuffer next : TcpBuffer},
    outBuffer.Valid → encode messages outBuffer = some (stamped, next) →
    next.Valid ∧ next.readable = outBuffer.readable ++ stream messages ∧
      stamped = messages.map stamp
  | [], _, _, _, valid, encoded => by
      cases encoded
      exact ⟨valid, (List.append_nil _).symm, rfl⟩
  | message :: messages, _, outBuffer, _, valid, encoded => by
      simp only [encode, encodeTinyPB, Option.bind_eq_bind, Option.bind_eq_some_iff] at encoded
      rcases encoded with ⟨written, isWritten, ⟨later, final⟩, rest, result⟩
      cases result
      have writtenValid := TcpBuffer.writeToBuffer_valid valid isWritten
      rcases encode_spec writtenValid rest with ⟨finalValid, readable, stamped⟩
      refine ⟨finalValid, ?_, congrArg _ stamped⟩
      rw [readable, TcpBuffer.writeToBuffer_readable valid isWritten, stream_cons,
        List.append_assoc]

end TinyPBCoder

namespace TcpConnection

structure Sender where
  connectionType : TcpConnectionType
  outBuffer : TcpBuffer
  /-- The messages of `m_write_dones`. -/
  writeDones : List TinyPBProtocol
  /-- `OUT_EVENT` is in the interest set of the descriptor. -/
  listensWrite : Bool
  /-- The loop of `onWrite` is being executed. -/
  writing : Bool
deriving DecidableEq

/-- The sender with the history of its stream. -/
structure SendState where
  sender : Sender
  /-- The concatenation of all frames appended to the out-buffer. -/
  appended : Bytes
  /-- The bytes that the socket has accepted. -/
  sent : Bytes
  /-- For each accepted byte, where it stands in the appended stream. -/
  sentAt : List Nat
  /-- The step that led here has cancelled `OUT_EVENT`. -/
  cancelled : Bool
deriving DecidableEq

inductive SendEvent
  /-- `reply`, or the end of the server branch of `excute`. -/
  | reply (messages : List TinyPBProtocol)
  | pushSendMessage (message : TinyPBProtocol)
  /-- `onWrite` is entered. -/
  | onWrite
  /-- `write()` returned `count`. -/
  | accepted (count : Nat)
  /-- `write()` returned -1 with `EAGAIN`. -/
  | again
  /-- The loop finds nothing to send. -/
  | drained
deriving DecidableEq

namespace Sender

/-- What `onWrite` encodes before its loop. -/
def pendingMessages (sender : Sender) : List TinyPBProtocol :=
  match sender.connectionType with
  | .byClient => sender.writeDones
  | .byServer => []

/-- `m_write_dones` after the messages have been encoded in place. -/
def encodedDones (sender : Sender) (stamped : List TinyPBProtocol) : List TinyPBProtocol :=
  match sender.connectionType with
  | .byClient => stamped
  | .byServer => sender.writeDones

/-- The end of `onWrite`, with `isWriteAll` as the loop has left it. -/
def leave (sender : Sender) (isWriteAll : Bool) : Sender :=
  { sender with
    listensWrite := if isWriteAll then false else sender.listensWrite
    writeDones :=
      match sender.connectionType with
      | .byClient => []
      | .byServer => sender.writeDones
    writing := false }

end Sender

namespace SendState

def initial (connectionType : TcpConnectionType) (size : Nat) : SendState where
  sender := {
    connectionType := connectionType
    outBuffer := .new size
    writeDones := []
    listensWrite := false
    writing := false }
  appended := []
  sent := []
  sentAt := []
  cancelled := false

/-- Where the byte at the read cursor stands in the appended stream. -/
def cursor (state : SendState) : Nat :=
  state.appended.length - state.sender.outBuffer.readAble

def step (state : SendState) : SendEvent → Option SendState
  | .reply messages =>
      if state.sender.writing then
        none
      else do
        let (_, outBuffer) ← TinyPBCoder.encode messages state.sender.outBuffer
        some { state with
          sender := { state.sender with outBuffer, listensWrite := true }
          appended := state.appended ++ TinyPBCoder.stream messages
          cancelled := false }
  | .pushSendMessage message =>
      if state.sender.writing then
        none
      else
        some { state with
          sender := { state.sender with
            writeDones := state.sender.writeDones ++ [message] }
          cancelled := false }
  | .onWrite =>
      if state.sender.writing then
        none
      else do
        let messages := state.sender.pendingMessages
        let (stamped, outBuffer) ← TinyPBCoder.encode messages state.sender.outBuffer
        some { state with
          sender := { state.sender with
            outBuffer
            writeDones := state.sender.encodedDones stamped
            writing := true }
          appended := state.appended ++ TinyPBCoder.stream messages
          cancelled := false }
  | .accepted count =>
      let writeSize := state.sender.outBuffer.readAble
      if state.sender.writing ∧ 0 < count ∧ count ≤ writeSize then
        some { state with
          sender :=
            if writeSize ≤ count then state.sender.leave true else state.sender
          sent := state.sent ++ state.sender.outBuffer.readable.take count
          sentAt := state.sentAt ++ List.range' state.cursor count
          cancelled := writeSize ≤ count }
      else
        none
  | .again =>
      if state.sender.writing ∧ 0 < state.sender.outBuffer.readAble then
        some { state with sender := state.sender.leave false, cancelled := false }
      else
        none
  | .drained =>
      if state.sender.writing ∧ state.sender.outBuffer.readAble = 0 then
        some { state with sender := state.sender.leave true, cancelled := true }
      else
        none

/-- What the socket has accepted is a beginning of the appended stream, all of
it when `OUT_EVENT` has just been cancelled, and no byte of it twice. -/
structure SentOnce (state : SendState) : Prop where
  isPrefix : state.sent <+: state.appended
  complete : state.cancelled → state.sent = state.appended
  once : state.sentAt.Nodup

end SendState

/-- Runs of a connection made with an out-buffer of `size` bytes. -/
def sending (connectionType : TcpConnectionType) (size : Nat) :
    Transition.System SendState SendEvent where
  Initial state := state = .initial connectionType size
  Step state event next := state.step event = some next

namespace SendEvent

/-- The socket takes bytes in this event. -/
def isAccepted : SendEvent → Bool
  | .accepted _ => true
  | _ => false

end SendEvent

/-- What the number of accepting writes says about a state. The read cursor of
the out-buffer never moves, so every write starts over at its first byte. -/
structure Tally (accepts : Nat) (state : SendState) : Prop where
  valid : state.sender.outBuffer.Valid
  unread : state.sender.outBuffer.readable = state.appended
  untouched : accepts = 0 → state.sent = [] ∧ state.sentAt = []
  sentOnce : accepts ≤ 1 → state.SentOnce
  first : 1 ≤ accepts → 0 ∈ state.sentAt
  repeated : 2 ≤ accepts → ¬state.sentAt.Nodup

namespace Tally

variable {accepts : Nat} {state : SendState}

theorem readAble_eq (tally : Tally accepts state) :
    state.sender.outBuffer.readAble = state.appended.length := by
  rw [← TcpBuffer.readable_length tally.valid, tally.unread]

theorem cursor_eq (tally : Tally accepts state) : state.cursor = 0 := by
  rw [SendState.cursor, tally.readAble_eq, Nat.sub_self]

theorem initial (connectionType : TcpConnectionType) {size : Nat} (fits : size < 2 ^ 31) :
    Tally 0 (.initial connectionType size) where
  valid := TcpBuffer.new_valid fits
  unread := TcpBuffer.new_readable size
  untouched := fun _ => ⟨rfl, rfl⟩
  sentOnce := fun _ => ⟨List.prefix_rfl, fun _ => rfl, List.nodup_nil⟩
  first := fun some => absurd some (by decide)
  repeated := fun some => absurd some (by decide)

/-- Appending frames and leaving the loop on `EAGAIN` do not touch what has
been sent. -/
theorem unsent (tally : Tally accepts state) {sender : Sender} {frames : Bytes}
    (valid : sender.outBuffer.Valid)
    (unread : sender.outBuffer.readable = state.appended ++ frames) :
    Tally accepts { state with
      sender, appended := state.appended ++ frames, cancelled := false } where
  valid := valid
  unread := unread
  untouched := tally.untouched
  sentOnce := fun few =>
    { isPrefix := (tally.sentOnce few).isPrefix.trans (List.prefix_append _ _)
      complete := fun cancelled => absurd cancelled Bool.false_ne_true
      once := (tally.sentOnce few).once }
  first := tally.first
  repeated := tally.repeated

/-- A drained buffer has never held a byte. -/
theorem drained (tally : Tally accepts state) {sender : Sender}
    (same : sender.outBuffer = state.sender.outBuffer)
    (empty : state.sender.outBuffer.readAble = 0) :
    Tally accepts { state with sender, cancelled := true } where
  valid := same ▸ tally.valid
  unread := same ▸ tally.unread
  untouched := tally.untouched
  sentOnce := fun few => by
    have nothing : state.appended = [] :=
      List.length_eq_zero_iff.mp (tally.readAble_eq.symm.trans empty)
    have isPrefix := (tally.sentOnce few).isPrefix
    refine ⟨isPrefix, fun _ => ?_, (tally.sentOnce few).once⟩
    rw [nothing] at isPrefix ⊢
    exact List.prefix_nil.mp isPrefix
  first := tally.first
  repeated := tally.repeated

/-- A write that is accepted sends the beginning of the stream, whatever has
been sent before. -/
theorem accepted (tally : Tally accepts state) {sender : Sender} {count : Nat}
    (same : sender.outBuffer = state.sender.outBuffer) (positive : 0 < count)
    (within : count ≤ state.sender.outBuffer.readAble) :
    Tally (accepts + 1) { state with
      sender
      sent := state.sent ++ state.sender.outBuffer.readable.take count
      sentAt := state.sentAt ++ List.range' state.cursor count
      cancelled := state.sender.outBuffer.readAble ≤ count } where
  valid := same ▸ tally.valid
  unread := same ▸ tally.unread
  untouched := fun none => absurd none (Nat.succ_ne_zero accepts)
  sentOnce := fun few => by
    have none : accepts = 0 := by omega
    rcases tally.untouched none with ⟨unsent, untouched⟩
    have size := tally.readAble_eq
    rw [unsent, untouched, tally.unread, List.nil_append, List.nil_append]
    refine ⟨List.take_prefix _ _, fun all => ?_, List.nodup_range'⟩
    simp only [decide_eq_true_eq] at all
    exact List.take_of_length_le (by omega)
  first := fun _ => by
    rw [tally.cursor_eq]
    apply List.mem_append_right
    exact List.mem_range'_1.mpr ⟨Nat.le_refl 0, by omega⟩
  repeated := fun many nodup => by
    have sentBefore := tally.first (by omega)
    have sentNow : 0 ∈ List.range' state.cursor count := by
      rw [tally.cursor_eq]
      exact List.mem_range'_1.mpr ⟨Nat.le_refl 0, by omega⟩
    exact List.disjoint_of_nodup_append nodup sentBefore sentNow

end Tally

theorem tally_step {accepts : Nat} {state next : SendState} {event : SendEvent}
    (tally : Tally accepts state) (step : state.step event = some next) :
    Tally (accepts + [event].countP SendEvent.isAccepted) next := by
  cases event with
  | reply messages =>
      simp only [SendState.step, Option.ite_none_left_eq_some, Option.bind_eq_bind,
        Option.bind_eq_some_iff, Option.some.injEq] at step
      rcases step with ⟨_, ⟨stamped, outBuffer⟩, encoded, rfl⟩
      rcases TinyPBCoder.encode_spec tally.valid encoded with ⟨valid, readable, _⟩
      exact tally.unsent valid (readable.trans (congrArg (· ++ _) tally.unread))
  | pushSendMessage message =>
      simp only [SendState.step, Option.ite_none_left_eq_some, Option.some.injEq] at step
      rcases step with ⟨_, rfl⟩
      have unchanged := @Tally.unsent accepts state tally { state.sender with
        writeDones := state.sender.writeDones ++ [message] } [] tally.valid
        (tally.unread.trans (List.append_nil _).symm)
      rw [List.append_nil] at unchanged
      exact unchanged
  | onWrite =>
      simp only [SendState.step, Option.ite_none_left_eq_some, Option.bind_eq_bind,
        Option.bind_eq_some_iff, Option.some.injEq] at step
      rcases step with ⟨_, ⟨stamped, outBuffer⟩, encoded, rfl⟩
      rcases TinyPBCoder.encode_spec tally.valid encoded with ⟨valid, readable, _⟩
      exact tally.unsent valid (readable.trans (congrArg (· ++ _) tally.unread))
  | accepted count =>
      simp only [SendState.step, Option.ite_none_right_eq_some, Option.some.injEq] at step
      rcases step with ⟨⟨_, positive, within⟩, rfl⟩
      refine tally.accepted ?_ positive within
      split <;> rfl
  | again =>
      simp only [SendState.step, Option.ite_none_right_eq_some, Option.some.injEq] at step
      rcases step with ⟨_, rfl⟩
      have unchanged := @Tally.unsent accepts state tally (state.sender.leave false) []
        tally.valid (tally.unread.trans (List.append_nil _).symm)
      rw [List.append_nil] at unchanged
      exact unchanged
  | drained =>
      simp only [SendState.step, Option.ite_none_right_eq_some, Option.some.injEq] at step
      rcases step with ⟨⟨_, empty⟩, rfl⟩
      exact tally.drained rfl empty

section Runs

variable {connectionType : TcpConnectionType} {size : Nat}

theorem tally_run {accepts : Nat} {state final : SendState} {events : List SendEvent}
    (tally : Tally accepts state) (run : (sending connectionType size).Run state events final) :
    Tally (accepts + events.countP SendEvent.isAccepted) final := by
  induction run generalizing accepts with
  | nil => exact tally
  | cons step _ induction =>
      have rest := induction (tally_step tally step)
      rw [Nat.add_assoc, ← List.countP_append, List.singleton_append] at rest
      exact rest

/-- The socket gets the appended stream, each byte of it once, throughout a run
if and only if at most one `write()` of the run accepts bytes. -/
theorem sending_exactly_once_iff (fits : size < 2 ^ 31) {events : List SendEvent}
    {final : SendState}
    (run : (sending connectionType size).Run (.initial connectionType size) events final) :
    (∀ before after middle, events = before ++ after →
      (sending connectionType size).Run (.initial connectionType size) before middle →
        middle.SentOnce) ↔
    events.countP SendEvent.isAccepted ≤ 1 := by
  have start := Tally.initial connectionType fits
  constructor
  · intro always
    have once := (always events [] final (List.append_nil _).symm run).once
    have tally := tally_run start run
    rw [Nat.zero_add] at tally
    by_contra many
    exact tally.repeated (by omega) once
  · intro few before after middle split partialRun
    have tally := tally_run start partialRun
    apply tally.sentOnce
    rw [split, List.countP_append] at few
    omega

theorem run_of_steps {events : List SendEvent} {state final : SendState}
    (ran : events.foldlM SendState.step state = some final) :
    (sending connectionType size).Run state events final :=
  Transition.System.Run.of_foldlM (fun _ _ _ step => step) ran

end Runs

/-- One response that the socket takes in one piece. -/
theorem sending_one_write :
    ∃ final, (sending .byServer 128).Run (.initial .byServer 128)
        [.reply [{ msgId := ascii "1" }], .onWrite, .accepted 27] final ∧
      ∀ before after middle,
        [.reply [{ msgId := ascii "1" }], .onWrite, .accepted 27] = before ++ after →
        (sending .byServer 128).Run (.initial .byServer 128) before middle →
          middle.SentOnce := by
  have ran : ([.reply [{ msgId := ascii "1" }], .onWrite, .accepted 27].foldlM
      SendState.step (.initial .byServer 128)).isSome := by
    decide +kernel
  rcases Option.isSome_iff_exists.mp ran with ⟨final, equal⟩
  have run := @run_of_steps .byServer 128 _ _ _ equal
  exact ⟨final, run, (sending_exactly_once_iff (by decide +kernel) run).mpr (by decide)⟩

/-- With the second response the first one is sent again. -/
theorem sending_two_responses :
    ∃ final, (sending .byServer 128).Run (.initial .byServer 128)
        [.reply [{ msgId := ascii "1" }], .onWrite, .accepted 27,
          .reply [{ msgId := ascii "2" }], .onWrite, .accepted 54] final ∧
      ¬final.SentOnce := by
  have ran : ([.reply [{ msgId := ascii "1" }], .onWrite, .accepted 27,
      .reply [{ msgId := ascii "2" }], .onWrite, .accepted 54].foldlM
        SendState.step (.initial .byServer 128)).isSome := by
    decide +kernel
  rcases Option.isSome_iff_exists.mp ran with ⟨final, equal⟩
  have run := @run_of_steps .byServer 128 _ _ _ equal
  have tally := tally_run (Tally.initial .byServer (by decide +kernel)) run
  exact ⟨final, run, fun sentOnce => tally.repeated (by decide) sentOnce.once⟩

end TcpConnection

end NetRpc
