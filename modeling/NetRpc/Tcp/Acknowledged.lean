import Mathlib.Data.List.Nodup
import NetRpc.Tcp.SendPath

/-! # When a sent message is acknowledged

The client branch of `onWrite` call by call. It encodes the queued messages,
writes, and then runs over the live queue, calling the callbacks one by one. A
callback may push messages while the loop stands on its entry.
-/

namespace NetRpc.TcpConnection

/-- An entry of `m_write_dones`, with the number of the push that made it. -/
structure WriteDone where
  push : Nat
  message : TinyPBProtocol
deriving DecidableEq

/-- Where the frame of a push stands in the appended stream. -/
structure SentFrame where
  push : Nat
  first : Nat
  size : Nat
deriving DecidableEq

inductive WritePhase
  /-- `onWrite` is not being executed. -/
  | idle
  | writing
  /-- The last loop is about to test this index. -/
  | notifying (index : Nat)
  /-- The callback of this entry is running. -/
  | calling (index : Nat)
deriving DecidableEq

/-- The client's sending half, with the history of its pushes. -/
structure Acknowledging where
  outBuffer : TcpBuffer
  writeDones : List WriteDone
  phase : WritePhase
  /-- How often `pushSendMessage` has been called. -/
  pushed : Nat
  appended : Bytes
  frames : List SentFrame
  /-- For each accepted byte, where it stands in the appended stream. -/
  sentAt : List Nat
  /-- The pushes whose callbacks have been called. -/
  called : List Nat
deriving DecidableEq

inductive WriteEvent
  | pushSendMessage (message : TinyPBProtocol)
  | onWrite
  /-- `write()` returned `count`. -/
  | accepted (count : Nat)
  /-- `write()` returned zero, or -1 with another error than `EAGAIN`. -/
  | failed
  | again
  /-- There is nothing to write. -/
  | drained
  /-- The callback of the next entry is called. -/
  | call
  | returned
  /-- The end of the queue is reached and it is cleared. -/
  | clear
deriving DecidableEq

/-- The frames of the entries, from position `first` on. -/
def placed (first : Nat) : List WriteDone → List SentFrame
  | [] => []
  | entry :: later =>
      let size := (TinyPBCoder.frame entry.message).length
      ⟨entry.push, first, size⟩ :: placed (first + size) later

namespace Acknowledging

def initial (size : Nat) : Acknowledging where
  outBuffer := .new size
  writeDones := []
  phase := .idle
  pushed := 0
  appended := []
  frames := []
  sentAt := []
  called := []

/-- Where the byte at the read cursor stands in the appended stream. -/
def cursor (state : Acknowledging) : Nat :=
  state.appended.length - state.outBuffer.readAble

/-- The pushes whose entries are queued. -/
def queue (state : Acknowledging) : List Nat :=
  state.writeDones.map WriteDone.push

/-- `push_back`, which the source does without looking at the phase. -/
def pushSendMessage (state : Acknowledging) (message : TinyPBProtocol) : Acknowledging :=
  { state with
    writeDones := state.writeDones ++ [⟨state.pushed, message⟩]
    pushed := state.pushed + 1 }

/-- The messages as the encoder leaves them stay in the queue. -/
def onWrite (state : Acknowledging) : Option Acknowledging := do
  let messages := state.writeDones.map WriteDone.message
  let (stamped, outBuffer) ← TinyPBCoder.encode messages state.outBuffer
  some { state with
    outBuffer
    writeDones := state.writeDones.zipWith (fun entry message => { entry with message }) stamped
    phase := .writing
    appended := state.appended ++ TinyPBCoder.stream messages
    frames := state.frames ++ placed state.appended.length state.writeDones }

def step (state : Acknowledging) : WriteEvent → Option Acknowledging
  | .pushSendMessage message =>
      match state.phase with
      | .idle | .calling _ => some (state.pushSendMessage message)
      | _ => none
  | .onWrite =>
      match state.phase with
      | .idle => state.onWrite
      | _ => none
  | .accepted count =>
      let writeSize := state.outBuffer.readAble
      if state.phase = .writing ∧ 0 < count ∧ count ≤ writeSize then
        some { state with
          phase := if writeSize ≤ count then .notifying 0 else .writing
          sentAt := state.sentAt ++ List.range' state.cursor count }
      else
        none
  | .failed =>
      if state.phase = .writing ∧ 0 < state.outBuffer.readAble then some state else none
  | .again =>
      if state.phase = .writing ∧ 0 < state.outBuffer.readAble then
        some { state with phase := .notifying 0 }
      else
        none
  | .drained =>
      if state.phase = .writing ∧ state.outBuffer.readAble = 0 then
        some { state with phase := .notifying 0 }
      else
        none
  | .call =>
      match state.phase with
      | .notifying index =>
          match state.writeDones[index]? with
          | some entry =>
              some { state with
                phase := .calling index
                called := state.called ++ [entry.push] }
          | none => none
      | _ => none
  | .returned =>
      match state.phase with
      | .calling index => some { state with phase := .notifying (index + 1) }
      | _ => none
  | .clear =>
      match state.phase with
      | .notifying index =>
          if state.writeDones.length ≤ index then
            some { state with phase := .idle, writeDones := [] }
          else
            none
      | _ => none

/-- All bytes of the frame have been accepted. -/
def Accepted (state : Acknowledging) (frame : SentFrame) : Prop :=
  ∀ position, frame.first ≤ position → position < frame.first + frame.size →
    position ∈ state.sentAt

/-- The frames are those of the first pushes, in their order and one each. No
callback is called twice, and none before all bytes of its frame have been
accepted. A push whose callback has not been called is still queued. -/
structure SentThenCalled (state : Acknowledging) : Prop where
  inOrder : state.frames.map SentFrame.push <+: List.range state.pushed
  once : state.called.Nodup
  accepted : ∀ push ∈ state.called, ∃ frame ∈ state.frames,
    frame.push = push ∧ state.Accepted frame
  kept : ∀ push < state.pushed, push ∈ state.called ∨ push ∈ state.queue

/-- No callback pushes a message, and `EAGAIN` is only met with an empty
queue. -/
def Plain (state : Acknowledging) : WriteEvent → Prop
  | .pushSendMessage _ => state.phase = .idle
  | .again => state.writeDones = []
  | _ => True

instance (state : Acknowledging) (event : WriteEvent) : Decidable (state.Plain event) := by
  cases event <;> unfold Plain <;> infer_instance

end Acknowledging

/-- Runs of a client made with an out-buffer of `size` bytes. -/
def acknowledging (size : Nat) : Transition.System Acknowledging WriteEvent where
  Initial state := state = .initial size
  Step state event next := state.step event = some next

namespace Acknowledging

variable {state next : Acknowledging} {event : WriteEvent}

/-- What a step can do, and when it can do it. -/
inductive Moves (state : Acknowledging) : WriteEvent → Acknowledging → Prop
  | pushSendMessage (message : TinyPBProtocol)
      (free : state.phase = .idle ∨ ∃ index, state.phase = .calling index) :
      Moves state (.pushSendMessage message) (state.pushSendMessage message)
  | onWrite {next : Acknowledging} (idle : state.phase = .idle)
      (written : state.onWrite = some next) : Moves state .onWrite next
  | accepted {count : Nat} (writing : state.phase = .writing) (positive : 0 < count)
      (within : count ≤ state.outBuffer.readAble) :
      Moves state (.accepted count) { state with
        phase := if state.outBuffer.readAble ≤ count then .notifying 0 else .writing
        sentAt := state.sentAt ++ List.range' state.cursor count }
  | failed (writing : state.phase = .writing) : Moves state .failed state
  | again (writing : state.phase = .writing) (unfinished : 0 < state.outBuffer.readAble) :
      Moves state .again { state with phase := .notifying 0 }
  | drained (writing : state.phase = .writing) (empty : state.outBuffer.readAble = 0) :
      Moves state .drained { state with phase := .notifying 0 }
  | call {index : Nat} {entry : WriteDone} (notifying : state.phase = .notifying index)
      (found : state.writeDones[index]? = some entry) :
      Moves state .call { state with
        phase := .calling index
        called := state.called ++ [entry.push] }
  | returned {index : Nat} (calling : state.phase = .calling index) :
      Moves state .returned { state with phase := .notifying (index + 1) }
  | clear {index : Nat} (notifying : state.phase = .notifying index)
      (ended : state.writeDones.length ≤ index) :
      Moves state .clear { state with phase := .idle, writeDones := [] }

theorem moves_of_step (step : state.step event = some next) : Moves state event next := by
  cases event with
  | pushSendMessage message =>
      simp only [Acknowledging.step] at step
      split at step
      · cases step
        exact .pushSendMessage message (.inl ‹_›)
      · cases step
        exact .pushSendMessage message (.inr ⟨_, ‹_›⟩)
      · cases step
  | onWrite =>
      simp only [Acknowledging.step] at step
      split at step
      · exact .onWrite ‹_› step
      · cases step
  | accepted count =>
      simp only [Acknowledging.step, Option.ite_none_right_eq_some, Option.some.injEq] at step
      rcases step with ⟨⟨writing, positive, within⟩, rfl⟩
      exact .accepted writing positive within
  | failed =>
      simp only [Acknowledging.step, Option.ite_none_right_eq_some, Option.some.injEq] at step
      rcases step with ⟨⟨writing, _⟩, rfl⟩
      exact .failed writing
  | again =>
      simp only [Acknowledging.step, Option.ite_none_right_eq_some, Option.some.injEq] at step
      rcases step with ⟨⟨writing, unfinished⟩, rfl⟩
      exact .again writing unfinished
  | drained =>
      simp only [Acknowledging.step, Option.ite_none_right_eq_some, Option.some.injEq] at step
      rcases step with ⟨⟨writing, empty⟩, rfl⟩
      exact .drained writing empty
  | call =>
      simp only [Acknowledging.step] at step
      split at step
      · split at step
        · cases step
          exact .call ‹_› ‹_›
        · cases step
      · cases step
  | returned =>
      simp only [Acknowledging.step] at step
      split at step
      · cases step
        exact .returned ‹_›
      · cases step
  | clear =>
      simp only [Acknowledging.step] at step
      split at step
      · split at step
        · cases step
          exact .clear ‹_› ‹_›
        · cases step
      · cases step

/-! ## What holds in every run -/

/-- Frames lie inside the stream and belong to pushes that have been made. While
`onWrite` is writing, the frame of the last entry ends the stream, and its last
byte has not been accepted. -/
structure Consistent (state : Acknowledging) : Prop where
  valid : state.outBuffer.Valid
  unread : state.outBuffer.readable = state.appended
  queued : ∀ push ∈ state.queue, push < state.pushed
  increasing : state.queue.Pairwise (· < ·)
  framed : ∀ frame ∈ state.frames, frame.push < state.pushed ∧
    0 < frame.size ∧ frame.first + frame.size ≤ state.appended.length
  sent : ∀ position ∈ state.sentAt, position < state.appended.length
  later : state.phase = .idle → ∀ frame ∈ state.frames, ∀ push ∈ state.queue,
    frame.push < push
  inside : ∀ index, state.phase = .calling index → index < state.writeDones.length
  last : state.phase = .writing → ∀ push, state.queue.getLast? = some push →
    (∀ position ∈ state.sentAt, position + 1 < state.appended.length) ∧
      ∀ frame ∈ state.frames, frame.push = push →
        frame.first + frame.size = state.appended.length

theorem Consistent.readAble_eq (consistent : Consistent state) :
    state.outBuffer.readAble = state.appended.length := by
  rw [← TcpBuffer.readable_length consistent.valid, consistent.unread]

theorem Consistent.cursor_eq (consistent : Consistent state) : state.cursor = 0 := by
  rw [cursor, consistent.readAble_eq, Nat.sub_self]

theorem initial_consistent {size : Nat} (fits : size < 2 ^ 31) :
    Consistent (.initial size) where
  valid := TcpBuffer.new_valid fits
  unread := TcpBuffer.new_readable size
  queued := fun _ member => nomatch member
  increasing := List.Pairwise.nil
  framed := fun _ member => nomatch member
  sent := fun _ member => nomatch member
  later := fun _ _ member => nomatch member
  inside := fun _ phase => nomatch phase
  last := fun phase => nomatch phase

/-! ## Encoding the queue -/

theorem placed_push (first : Nat) (entries : List WriteDone) :
    (placed first entries).map SentFrame.push = entries.map WriteDone.push := by
  induction entries generalizing first with
  | nil => rfl
  | cons entry later induction =>
      simp only [placed, List.map_cons, induction]

theorem placed_bounds {entries : List WriteDone} {first : Nat} {frame : SentFrame}
    (member : frame ∈ placed first entries) :
    first ≤ frame.first ∧ 0 < frame.size ∧ frame.first + frame.size ≤
      first + (TinyPBCoder.stream (entries.map WriteDone.message)).length := by
  induction entries generalizing first with
  | nil => cases member
  | cons entry later induction =>
      rw [List.map_cons, TinyPBCoder.stream_cons, List.length_append]
      rcases List.mem_cons.mp member with rfl | inLater
      · have positive := TinyPBCoder.frame_length_pos entry.message
        simp only
        exact ⟨Nat.le_refl _, positive, by omega⟩
      · rcases induction inLater with ⟨lower, positive, upper⟩
        exact ⟨by omega, positive, by omega⟩

/-- Where the pushes differ, the frame of the last entry ends the stream. -/
theorem placed_last {entries : List WriteDone} {first : Nat} {frame : SentFrame}
    (increasing : (entries.map WriteDone.push).Pairwise (· < ·))
    (isLast : (entries.map WriteDone.push).getLast? = some frame.push)
    (member : frame ∈ placed first entries) :
    frame.first + frame.size =
      first + (TinyPBCoder.stream (entries.map WriteDone.message)).length := by
  induction entries generalizing first with
  | nil => cases member
  | cons head later induction =>
      rw [List.map_cons, TinyPBCoder.stream_cons, List.length_append]
      rcases List.pairwise_cons.mp increasing with ⟨below, increasing⟩
      cases later with
      | nil =>
          cases List.mem_singleton.mp member
          rw [List.map_nil, TinyPBCoder.stream_nil, List.length_nil, Nat.add_zero]
      | cons second rest =>
          rw [List.map_cons, List.map_cons, List.getLast?_cons_cons] at isLast
          have inLater : frame ∈ placed (first + (TinyPBCoder.frame head.message).length)
              (second :: rest) := by
            rcases List.mem_cons.mp member with rfl | inLater
            · exact absurd (below _ (List.mem_of_getLast? isLast)) (Nat.lt_irrefl _)
            · exact inLater
          rw [induction increasing isLast inLater]
          omega

theorem onWrite_spec (consistent : Consistent state) (written : state.onWrite = some next) :
    next.outBuffer.Valid ∧
      next.outBuffer.readable =
        state.appended ++ TinyPBCoder.stream (state.writeDones.map WriteDone.message) ∧
      next.queue = state.queue ∧ next.phase = .writing ∧ next.pushed = state.pushed ∧
      next.appended =
        state.appended ++ TinyPBCoder.stream (state.writeDones.map WriteDone.message) ∧
      next.frames = state.frames ++ placed state.appended.length state.writeDones ∧
      next.sentAt = state.sentAt ∧ next.called = state.called := by
  simp only [onWrite, Option.bind_eq_bind, Option.bind_eq_some_iff, Option.some.injEq] at written
  rcases written with ⟨⟨stamped, outBuffer⟩, encoded, rfl⟩
  rcases TinyPBCoder.encode_spec consistent.valid encoded with ⟨valid, readable, isStamped⟩
  refine ⟨valid, ?_, ?_, rfl, rfl, rfl, rfl, rfl, rfl⟩
  · rw [← consistent.unread]
    exact readable
  · have encodedInPlace := congrArg
      (state.writeDones.zipWith fun entry message => { entry with message }) isStamped
    simp only [queue, encodedInPlace, List.map_map, List.zipWith_map_right, List.zipWith_self,
      Function.comp_def]

theorem onWrite_consistent (consistent : Consistent state) (idle : state.phase = .idle)
    (written : state.onWrite = some next) : Consistent next := by
  rcases onWrite_spec consistent written with
    ⟨valid, unread, queue, phase, pushed, appended, frames, sentAt, _⟩
  have length := congrArg List.length appended
  rw [List.length_append] at length
  constructor
  · exact valid
  · rw [unread, appended]
  · rw [queue, pushed]
    exact consistent.queued
  · rw [queue]
    exact consistent.increasing
  · rw [frames, pushed]
    intro frame member
    rcases List.mem_append.mp member with before | now
    · have framed := consistent.framed frame before
      exact ⟨framed.1, framed.2.1, by omega⟩
    · have bounds := placed_bounds now
      have inQueue : frame.push ∈ state.queue := by
        rw [Acknowledging.queue, ← placed_push state.appended.length]
        exact List.mem_map_of_mem now
      exact ⟨consistent.queued _ inQueue, bounds.2.1, by omega⟩
  · rw [sentAt]
    intro position member
    have before := consistent.sent position member
    omega
  · intro isIdle
    rw [phase] at isIdle
    cases isIdle
  · intro index isCalling
    rw [phase] at isCalling
    cases isCalling
  · intro _ push isLast
    rw [queue] at isLast
    have inQueue := List.mem_of_getLast? isLast
    rw [sentAt, frames, appended]
    constructor
    · intro position member
      have before := consistent.sent position member
      have positive : 0 < (TinyPBCoder.stream
          (state.writeDones.map WriteDone.message)).length := by
        cases entries : state.writeDones with
        | nil =>
            rw [Acknowledging.queue, entries] at inQueue
            cases inQueue
        | cons entry later =>
            have frame := TinyPBCoder.frame_length_pos entry.message
            rw [List.map_cons, TinyPBCoder.stream_cons, List.length_append]
            omega
      rw [List.length_append]
      omega
    · intro frame member same
      rcases List.mem_append.mp member with before | now
      · have earlier := consistent.later idle frame before push inQueue
        exact absurd same (Nat.ne_of_lt earlier)
      · rw [← same] at isLast
        rw [placed_last consistent.increasing isLast now, List.length_append]

theorem pushSendMessage_consistent (consistent : Consistent state)
    (notWriting : state.phase ≠ .writing) (message : TinyPBProtocol) :
    Consistent (state.pushSendMessage message) := by
  have queue : (state.pushSendMessage message).queue = state.queue ++ [state.pushed] :=
    List.map_append
  constructor
  · exact consistent.valid
  · exact consistent.unread
  · rw [queue]
    intro push member
    rcases List.mem_append.mp member with before | now
    · exact Nat.lt_succ_of_lt (consistent.queued push before)
    · rw [List.mem_singleton.mp now]
      exact Nat.lt_succ_self _
  · rw [queue, List.pairwise_append]
    refine ⟨consistent.increasing, List.pairwise_singleton _ _, fun push member other now => ?_⟩
    rw [List.mem_singleton.mp now]
    exact consistent.queued push member
  · intro frame member
    have framed := consistent.framed frame member
    exact ⟨Nat.lt_succ_of_lt framed.1, framed.2⟩
  · exact consistent.sent
  · rw [queue]
    intro idle frame member push inQueue
    rcases List.mem_append.mp inQueue with before | now
    · exact consistent.later idle frame member push before
    · rw [List.mem_singleton.mp now]
      exact (consistent.framed frame member).1
  · intro index isCalling
    have inside := consistent.inside index isCalling
    simp only [pushSendMessage, List.length_append, List.length_singleton]
    omega
  · intro isWriting
    exact absurd isWriting notWriting

theorem accepted_consistent (consistent : Consistent state) (writing : state.phase = .writing)
    {count : Nat} (within : count ≤ state.outBuffer.readAble) :
    Consistent { state with
      phase := if state.outBuffer.readAble ≤ count then .notifying 0 else .writing
      sentAt := state.sentAt ++ List.range' state.cursor count } := by
  rw [consistent.cursor_eq]
  rw [consistent.readAble_eq] at within ⊢
  have positions : ∀ position ∈ state.sentAt ++ List.range' 0 count,
      position ∈ state.sentAt ∨ position < count := by
    intro position member
    exact (List.mem_append.mp member).imp_right fun now => by
      have bounds := List.mem_range'_1.mp now
      omega
  constructor
  · exact consistent.valid
  · exact consistent.unread
  · exact consistent.queued
  · exact consistent.increasing
  · exact consistent.framed
  · intro position member
    rcases positions position member with before | now
    · exact consistent.sent position before
    · simp only
      omega
  · intro isIdle
    simp only at isIdle
    split at isIdle <;> cases isIdle
  · intro index isCalling
    simp only at isCalling
    split at isCalling <;> cases isCalling
  · intro isWriting push isLast
    simp only at isWriting
    split at isWriting
    · cases isWriting
    · rename_i unfinished
      rcases consistent.last writing push isLast with ⟨unsent, framed⟩
      refine ⟨fun position member => ?_, framed⟩
      rcases positions position member with before | now
      · exact unsent position before
      · simp only
        omega

/-- A change of the phase between writing and clearing keeps what holds. -/
theorem Consistent.rephase (consistent : Consistent state) {phase : WritePhase}
    (called : List Nat) (notIdle : phase ≠ .idle) (notWriting : phase ≠ .writing)
    (inside : ∀ index, phase = .calling index → index < state.writeDones.length) :
    Consistent { state with phase, called } where
  valid := consistent.valid
  unread := consistent.unread
  queued := consistent.queued
  increasing := consistent.increasing
  framed := consistent.framed
  sent := consistent.sent
  later := fun isIdle => absurd isIdle notIdle
  inside := inside
  last := fun isWriting => absurd isWriting notWriting

theorem clear_consistent (consistent : Consistent state) :
    Consistent { state with phase := .idle, writeDones := [] } where
  valid := consistent.valid
  unread := consistent.unread
  queued := fun _ member => nomatch member
  increasing := List.Pairwise.nil
  framed := consistent.framed
  sent := consistent.sent
  later := fun _ _ _ _ member => nomatch member
  inside := fun _ isCalling => nomatch isCalling
  last := fun isWriting => nomatch isWriting

theorem step_consistent (consistent : Consistent state) (step : state.step event = some next) :
    Consistent next := by
  cases moves_of_step step with
  | pushSendMessage message free =>
      refine pushSendMessage_consistent consistent (fun writing => ?_) message
      rcases free with idle | ⟨index, calling⟩
      · cases idle.symm.trans writing
      · cases calling.symm.trans writing
  | onWrite idle written => exact onWrite_consistent consistent idle written
  | accepted writing _ within => exact accepted_consistent consistent writing within
  | failed => exact consistent
  | again =>
      exact consistent.rephase state.called (fun same => nomatch same) (fun same => nomatch same)
        (fun _ same => nomatch same)
  | drained =>
      exact consistent.rephase state.called (fun same => nomatch same) (fun same => nomatch same)
        (fun _ same => nomatch same)
  | @call index entry _ found =>
      refine consistent.rephase _ (fun same => nomatch same) (fun same => nomatch same) ?_
      intro other same
      cases same
      exact (List.getElem?_eq_some_iff.mp found).1
  | returned =>
      exact consistent.rephase state.called (fun same => nomatch same) (fun same => nomatch same)
        (fun _ same => nomatch same)
  | clear => exact clear_consistent consistent

/-! ## Plain runs -/

/-- How many of the pushes had their callbacks called when `onWrite` was last
idle, and how many have been called, accepted and encoded by now. -/
structure Progress where
  before : Nat
  called : Nat
  accepted : Nat
  encoded : Nat

/-- What the phase of a plain run says about its progress. -/
def Progress.Fits (progress : Progress) (pushed : Nat) : WritePhase → Prop
  | .idle => progress.called = progress.before ∧ progress.accepted = progress.before ∧
      progress.encoded = progress.before
  | .writing => progress.called = progress.before ∧ progress.accepted = progress.before ∧
      progress.encoded = pushed
  | .notifying index => progress.called = progress.before + index ∧
      progress.accepted = pushed ∧ progress.encoded = pushed
  | .calling index => progress.called = progress.before + (index + 1) ∧
      progress.accepted = pushed ∧ progress.encoded = pushed

/-- The pushes are encoded, accepted and called in their order, and those that
were not called before are queued. -/
structure InOrder (state : Acknowledging) (progress : Progress) : Prop where
  stage : progress.Fits state.pushed state.phase
  beforeLe : progress.before ≤ progress.called
  calledLe : progress.called ≤ progress.accepted
  acceptedLe : progress.accepted ≤ progress.encoded
  encodedLe : progress.encoded ≤ state.pushed
  queued : state.queue = List.range' progress.before (state.pushed - progress.before)
  framed : state.frames.map SentFrame.push = List.range progress.encoded
  called : state.called = List.range progress.called
  accepted : ∀ frame ∈ state.frames, frame.push < progress.accepted → state.Accepted frame

theorem initial_inOrder (size : Nat) : InOrder (.initial size) ⟨0, 0, 0, 0⟩ where
  stage := ⟨rfl, rfl, rfl⟩
  beforeLe := Nat.le_refl 0
  calledLe := Nat.le_refl 0
  acceptedLe := Nat.le_refl 0
  encodedLe := Nat.le_refl 0
  queued := rfl
  framed := rfl
  called := rfl
  accepted := fun _ member => nomatch member

theorem InOrder.sentThenCalled {progress : Progress} (inOrder : InOrder state progress) :
    SentThenCalled state where
  inOrder := by
    rw [inOrder.framed, ← Nat.min_eq_left inOrder.encodedLe, ← List.take_range]
    exact List.take_prefix _ _
  once := by
    rw [inOrder.called]
    exact List.nodup_range
  accepted := by
    intro push member
    rw [inOrder.called, List.mem_range] at member
    have below := Nat.lt_of_lt_of_le member inOrder.calledLe
    have framed : push ∈ state.frames.map SentFrame.push := by
      rw [inOrder.framed]
      exact List.mem_range.mpr (Nat.lt_of_lt_of_le below inOrder.acceptedLe)
    rcases List.mem_map.mp framed with ⟨frame, inFrames, rfl⟩
    exact ⟨frame, inFrames, rfl, inOrder.accepted frame inFrames below⟩
  kept := by
    intro push below
    rw [inOrder.called, inOrder.queued, List.mem_range, List.mem_range'_1]
    have atLeast := inOrder.beforeLe
    omega

/-- Whatever is called next was pushed next. -/
theorem InOrder.entry {progress : Progress} (inOrder : InOrder state progress) {index : Nat}
    {entry : WriteDone} (found : state.writeDones[index]? = some entry) :
    entry.push = progress.before + index ∧ progress.before + index < state.pushed := by
  have pushes : state.queue[index]? = some entry.push := by
    rw [queue, List.getElem?_map, found]
    rfl
  rw [inOrder.queued] at pushes
  rcases List.getElem?_eq_some_iff.mp pushes with ⟨inside, equal⟩
  rw [List.length_range'] at inside
  rw [List.getElem_range', Nat.one_mul] at equal
  exact ⟨equal.symm, by omega⟩

theorem Accepted.mono {frame : SentFrame} (accepted : state.Accepted frame)
    (grows : ∀ position ∈ state.sentAt, position ∈ next.sentAt) : next.Accepted frame :=
  fun position lower upper => grows position (accepted position lower upper)

theorem pushSendMessage_inOrder {progress : Progress} (inOrder : InOrder state progress)
    (idle : state.phase = .idle) (message : TinyPBProtocol) :
    InOrder (state.pushSendMessage message) progress where
  stage := by
    have stage := inOrder.stage
    rw [idle] at stage
    simp only [pushSendMessage, idle]
    exact stage
  beforeLe := inOrder.beforeLe
  calledLe := inOrder.calledLe
  acceptedLe := inOrder.acceptedLe
  encodedLe := Nat.le_succ_of_le inOrder.encodedLe
  queued := by
    have within := Nat.le_trans inOrder.beforeLe (Nat.le_trans inOrder.calledLe
      (Nat.le_trans inOrder.acceptedLe inOrder.encodedLe))
    have grown : (state.pushSendMessage message).queue = state.queue ++ [state.pushed] :=
      List.map_append
    have size : state.pushed + 1 - progress.before = (state.pushed - progress.before) + 1 := by
      omega
    have last : progress.before + 1 * (state.pushed - progress.before) = state.pushed := by
      omega
    rw [grown, inOrder.queued]
    change _ = List.range' progress.before (state.pushed + 1 - progress.before)
    rw [size, List.range'_concat, last]
  framed := inOrder.framed
  called := inOrder.called
  accepted := inOrder.accepted

theorem onWrite_inOrder {progress : Progress} (consistent : Consistent state)
    (inOrder : InOrder state progress) (idle : state.phase = .idle)
    (written : state.onWrite = some next) :
    InOrder next ⟨progress.before, progress.before, progress.before, state.pushed⟩ := by
  rcases onWrite_spec consistent written with
    ⟨_, _, queue, phase, pushed, _, frames, sentAt, called⟩
  have stage := inOrder.stage
  rw [idle] at stage
  rcases stage with ⟨calledAll, acceptedAll, encodedAll⟩
  have within : progress.before ≤ state.pushed := encodedAll ▸ inOrder.encodedLe
  constructor
  · rw [phase, pushed]
    exact ⟨rfl, rfl, rfl⟩
  · exact Nat.le_refl _
  · exact Nat.le_refl _
  · exact within
  · exact Nat.le_of_eq pushed.symm
  · rw [queue, pushed]
    exact inOrder.queued
  · have joined := @List.range'_append_1 0 progress.before (state.pushed - progress.before)
    rw [Nat.zero_add, Nat.add_sub_cancel' within] at joined
    rw [frames, List.map_append, placed_push, inOrder.framed, encodedAll]
    change List.range progress.before ++ state.queue = List.range state.pushed
    rw [inOrder.queued, List.range_eq_range', List.range_eq_range', joined]
  · rw [called, inOrder.called, calledAll]
  · rw [frames]
    intro frame member below
    rcases List.mem_append.mp member with earlier | now
    · have accepted := inOrder.accepted frame earlier (acceptedAll ▸ below)
      exact accepted.mono fun position sent => sentAt ▸ sent
    · have inQueue : frame.push ∈ state.queue := by
        rw [Acknowledging.queue, ← placed_push state.appended.length]
        exact List.mem_map_of_mem now
      rw [inOrder.queued, List.mem_range'_1] at inQueue
      exact absurd below (Nat.not_lt.mpr inQueue.1)

/-- The last loop is entered with the queue encoded and, if anything is queued,
accepted. -/
theorem InOrder.leaves {progress : Progress} (inOrder : InOrder state progress)
    (writing : state.phase = .writing) (sentAt : List Nat)
    (accepted : ∀ frame ∈ state.frames, progress.before ≤ frame.push →
      Accepted { state with sentAt } frame)
    (grows : ∀ position ∈ state.sentAt, position ∈ sentAt) :
    InOrder { state with phase := .notifying 0, sentAt }
      ⟨progress.before, progress.before, state.pushed, state.pushed⟩ := by
  have stage := inOrder.stage
  rw [writing] at stage
  rcases stage with ⟨calledAll, acceptedAll, encodedAll⟩
  have acceptedLe := inOrder.acceptedLe
  have queued := inOrder.queued
  have framed := inOrder.framed
  have called := inOrder.called
  rw [encodedAll] at framed
  rw [calledAll] at called
  refine ⟨⟨rfl, rfl, rfl⟩, Nat.le_refl _, ?_, Nat.le_refl _, Nat.le_refl _, queued, framed,
    called, ?_⟩
  · simp only
    omega
  · intro frame member _
    rcases Nat.lt_or_ge frame.push progress.before with earlier | now
    · exact (inOrder.accepted frame member (acceptedAll ▸ earlier)).mono grows
    · exact accepted frame member now

theorem InOrder.grow {progress : Progress} (inOrder : InOrder state progress)
    {sentAt : List Nat} (grows : ∀ position ∈ state.sentAt, position ∈ sentAt) :
    InOrder { state with sentAt } progress :=
  { inOrder with
    accepted := fun frame member below => (inOrder.accepted frame member below).mono grows }

theorem InOrder.call {progress : Progress} (inOrder : InOrder state progress) {index : Nat}
    {entry : WriteDone} (notifying : state.phase = .notifying index)
    (found : state.writeDones[index]? = some entry) :
    InOrder { state with phase := .calling index, called := state.called ++ [entry.push] }
      ⟨progress.before, progress.called + 1, progress.accepted, progress.encoded⟩ := by
  have stage := inOrder.stage
  rw [notifying] at stage
  rcases stage with ⟨calledAll, acceptedAll, encodedAll⟩
  rcases inOrder.entry found with ⟨isNext, below⟩
  have beforeLe := inOrder.beforeLe
  refine ⟨⟨?_, acceptedAll, encodedAll⟩, ?_, ?_, inOrder.acceptedLe, inOrder.encodedLe,
    inOrder.queued, inOrder.framed, ?_, inOrder.accepted⟩
  · simp only
    omega
  · simp only
    omega
  · simp only
    omega
  · simp only [inOrder.called, isNext, ← calledAll]
    exact List.range_succ.symm

theorem InOrder.clear {progress : Progress} (inOrder : InOrder state progress) {index : Nat}
    (notifying : state.phase = .notifying index) (ended : state.writeDones.length ≤ index) :
    InOrder { state with phase := .idle, writeDones := [] }
      ⟨state.pushed, state.pushed, state.pushed, state.pushed⟩ := by
  have stage := inOrder.stage
  rw [notifying] at stage
  rcases stage with ⟨calledAll, acceptedAll, encodedAll⟩
  have calledLe := inOrder.calledLe
  have framed := inOrder.framed
  have called := inOrder.called
  have accepted := inOrder.accepted
  have queued := congrArg List.length inOrder.queued
  rw [queue, List.length_map, List.length_range'] at queued
  have all : progress.called = state.pushed := by omega
  rw [encodedAll] at framed
  rw [all] at called
  rw [acceptedAll] at accepted
  refine ⟨⟨rfl, rfl, rfl⟩, Nat.le_refl _, Nat.le_refl _, Nat.le_refl _, Nat.le_refl _, ?_,
    framed, called, accepted⟩
  simp [queue]

theorem plain_step {progress : Progress} (consistent : Consistent state)
    (inOrder : InOrder state progress) (plain : state.Plain event)
    (step : state.step event = some next) : ∃ later, InOrder next later := by
  cases moves_of_step step with
  | pushSendMessage message => exact ⟨_, pushSendMessage_inOrder inOrder plain message⟩
  | onWrite idle written => exact ⟨_, onWrite_inOrder consistent inOrder idle written⟩
  | @accepted count writing _ within =>
      rw [consistent.cursor_eq]
      rw [consistent.readAble_eq] at within ⊢
      by_cases finished : state.appended.length ≤ count
      · rw [if_pos finished]
        refine ⟨_, inOrder.leaves writing _ ?_ fun _ => List.mem_append_left _⟩
        intro frame member _ position lower upper
        have bounds := (consistent.framed frame member).2.2
        exact List.mem_append_right _ (List.mem_range'_1.mpr (by omega))
      · rw [if_neg finished, ← writing]
        exact ⟨progress, inOrder.grow fun _ => List.mem_append_left _⟩
  | failed => exact ⟨progress, inOrder⟩
  | again writing _ =>
      have empty : state.writeDones = [] := plain
      refine ⟨_, inOrder.leaves writing state.sentAt ?_ fun _ => id⟩
      intro frame member atLeast
      have queued := inOrder.queued
      rw [queue, empty] at queued
      have framed := (consistent.framed frame member).1
      have none := List.range'_eq_nil_iff.mp queued.symm
      omega
  | drained writing empty =>
      rw [consistent.readAble_eq] at empty
      refine ⟨_, inOrder.leaves writing state.sentAt ?_ fun _ => id⟩
      intro frame member _
      have bounds := (consistent.framed frame member).2
      omega
  | call notifying found => exact ⟨_, inOrder.call notifying found⟩
  | returned calling =>
      have stage := inOrder.stage
      rw [calling] at stage
      exact ⟨progress, { inOrder with stage }⟩
  | clear notifying ended => exact ⟨_, inOrder.clear notifying ended⟩

theorem initial_run {size : Nat} (fits : size < 2 ^ 31) {events : List WriteEvent}
    {final : Acknowledging} (run : (acknowledging size).Run (.initial size) events final) :
    Consistent final :=
  run.preserves Consistent (fun _ _ _ consistent step => step_consistent consistent step)
    (initial_consistent fits)

/-- The callback of this entry has been called and is running. -/
def inCallback (state : Acknowledging) (index : Nat) (entry : WriteDone) : Acknowledging :=
  { state with
    phase := .calling index
    called := state.called ++ [entry.push] }

theorem call_step {index : Nat} {entry : WriteDone} (notifying : state.phase = .notifying index)
    (found : state.writeDones[index]? = some entry) :
    state.step .call = some (state.inCallback index entry) := by
  simp only [Acknowledging.step, notifying, found, inCallback]

/-- From the last loop on, the callback of every entry that is ahead gets
called, whether its frame has been accepted or not. -/
theorem call_reached {size : Nat} {entry : WriteDone} {ahead index : Nat}
    {state : Acknowledging} (notifying : state.phase = .notifying index)
    (found : state.writeDones[index + ahead]? = some entry) :
    ∃ events final, (acknowledging size).Run state events final ∧
      entry.push ∈ final.called ∧ final.frames = state.frames ∧
      final.sentAt = state.sentAt := by
  induction ahead generalizing index state with
  | zero =>
      rw [Nat.add_zero] at found
      exact ⟨[.call], _, .cons (call_step notifying found) (.nil _),
        List.mem_append_right _ (List.mem_singleton_self _), rfl, rfl⟩
  | succ ahead induction =>
      have inside := (List.getElem?_eq_some_iff.mp found).1
      have call := call_step notifying (List.getElem?_eq_getElem (by omega))
      generalize state.writeDones[index] = first at call
      have returned : (state.inCallback index first).step .returned =
          some { state.inCallback index first with phase := .notifying (index + 1) } := rfl
      rw [← Nat.add_assoc, Nat.add_right_comm] at found
      rcases @induction (index + 1)
          { state.inCallback index first with phase := .notifying (index + 1) } rfl found with
        ⟨events, final, run, member, frames, sentAt⟩
      exact ⟨_, final, .cons call (.cons returned run), member, frames, sentAt⟩

/-- A push from a callback is called in the same loop without ever being
encoded. -/
theorem pushed_inside_called {size : Nat} (consistent : Consistent state) {index : Nat}
    (calling : state.phase = .calling index) (message : TinyPBProtocol) :
    ∃ later final, (acknowledging size).Run (state.pushSendMessage message) later final ∧
      ¬final.SentThenCalled := by
  have inside := consistent.inside index calling
  have returned : (state.pushSendMessage message).step .returned =
      some { state.pushSendMessage message with phase := .notifying (index + 1) } := by
    simp only [Acknowledging.step, pushSendMessage, calling]
  have ahead : index + 1 + (state.writeDones.length - (index + 1)) = state.writeDones.length := by
    omega
  have found : (state.pushSendMessage message).writeDones[index + 1 +
      (state.writeDones.length - (index + 1))]? = some ⟨state.pushed, message⟩ := by
    rw [ahead]
    exact List.getElem?_concat_length
  rcases @call_reached size ⟨state.pushed, message⟩ _ (index + 1)
      { state.pushSendMessage message with phase := .notifying (index + 1) } rfl found with
    ⟨events, final, run, member, frames, _⟩
  refine ⟨_, final, .cons returned run, fun sent => ?_⟩
  rcases sent.accepted _ member with ⟨frame, inFrames, same, _⟩
  rw [frames] at inFrames
  exact absurd same (Nat.ne_of_lt (consistent.framed frame inFrames).1)

/-- After `EAGAIN` the callback of the last entry is called although the last
byte of its frame has not been accepted. -/
theorem called_after_again {size : Nat} (consistent : Consistent state)
    (writing : state.phase = .writing) (queued : state.writeDones ≠ []) :
    ∃ later final,
      (acknowledging size).Run { state with phase := .notifying 0 } later final ∧
        ¬final.SentThenCalled := by
  have isLast := List.getLast?_eq_getLast_of_ne_nil queued
  generalize state.writeDones.getLast queued = entry at isLast
  have found := isLast
  rw [List.getLast?_eq_getElem?] at found
  rcases @call_reached size entry (state.writeDones.length - 1) 0
      { state with phase := .notifying 0 } rfl (by rw [Nat.zero_add]; exact found) with
    ⟨events, final, run, member, frames, sentAt⟩
  refine ⟨_, final, run, fun sent => ?_⟩
  rcases sent.accepted _ member with ⟨frame, inFrames, same, accepted⟩
  rw [frames] at inFrames
  have lastPush : state.queue.getLast? = some entry.push := by
    rw [queue, List.getLast?_map, isLast]
    rfl
  rcases consistent.last writing entry.push lastPush with ⟨unsent, ends⟩
  have positive := (consistent.framed frame inFrames).2.1
  have isEnd := ends frame inFrames same
  have lastSent := accepted (frame.first + frame.size - 1) (by omega) (by omega)
  rw [sentAt] at lastSent
  have before := unsent _ lastSent
  omega

/-- In every plain run the messages are encoded once and in order, and every
callback is called once, after its frame has been accepted. Nothing less than a
plain run will do: every other step leads to a state where this has failed. -/
theorem sent_then_called {size : Nat} (fits : size < 2 ^ 31) :
    (∀ events final, ((acknowledging size).restrict Plain).Run (.initial size) events final →
      final.SentThenCalled) ∧
    ∀ events current event next, (acknowledging size).Run (.initial size) events current →
      (acknowledging size).Step current event next → ¬current.Plain event →
        ∃ later final, (acknowledging size).Run next later final ∧ ¬final.SentThenCalled := by
  constructor
  · intro events final run
    have preserved : ∀ current event next,
        Consistent current ∧ (∃ progress, InOrder current progress) →
        ((acknowledging size).restrict Plain).Step current event next →
        Consistent next ∧ ∃ progress, InOrder next progress := by
      intro current event next holds step
      rcases holds with ⟨consistent, progress, inOrder⟩
      exact ⟨step_consistent consistent step.1, plain_step consistent inOrder step.2 step.1⟩
    rcases run.preserves _ preserved ⟨initial_consistent fits, _, initial_inOrder size⟩ with
      ⟨_, progress, inOrder⟩
    exact inOrder.sentThenCalled
  · intro events current event next run step notPlain
    have consistent := initial_run fits run
    cases moves_of_step step with
    | pushSendMessage message free =>
        rcases free with idle | ⟨index, calling⟩
        · exact absurd idle notPlain
        · exact pushed_inside_called consistent calling message
    | again writing _ => exact called_after_again consistent writing notPlain
    | onWrite | accepted | failed | drained | call | returned | clear =>
        exact absurd trivial notPlain

/-! ## Three runs -/

def hello : TinyPBProtocol where
  msgId := ascii "1"

theorem run_of_steps {size : Nat} {events : List WriteEvent} {observe : Acknowledging → α}
    {observed : α}
    (computed : (events.foldlM Acknowledging.step (.initial size)).map observe = some observed) :
    ∃ final, (acknowledging size).Run (.initial size) events final ∧ observe final = observed :=
  Transition.System.Run.of_observed (fun _ _ _ step => step) computed

/-- Two messages are taken by the socket in two writes, the second of which
takes everything. -/
theorem sent_then_called_twice :
    ∃ final, ((acknowledging 128).restrict Plain).Run (.initial 128)
        [.pushSendMessage hello, .pushSendMessage hello, .onWrite, .accepted 30, .failed,
          .accepted 54, .call, .returned, .call, .returned, .clear] final ∧
      final.called = [0, 1] ∧ final.SentThenCalled := by
  have computed : (([.pushSendMessage hello, .pushSendMessage hello, .onWrite, .accepted 30,
      .failed, .accepted 54, .call, .returned, .call, .returned, .clear].foldlM
        (Transition.System.guarded Plain Acknowledging.step) (.initial 128)).map
          Acknowledging.called) = some [0, 1] := by
    decide +kernel
  have agrees : ∀ current event next, Acknowledging.step current event = some next →
      (acknowledging 128).Step current event next := fun _ _ _ stepped => stepped
  rcases Transition.System.Run.of_observed (Transition.System.restrict_of_guarded agrees)
    computed with ⟨final, run, called⟩
  exact ⟨final, run, called, (sent_then_called (by decide +kernel)).1 _ final run⟩

/-- After `EAGAIN` a callback is called although nothing has been accepted. A
message pushed by a callback has its own callback called without having been
encoded. -/
theorem called_before_sent :
    (∃ final, (acknowledging 128).Run (.initial 128)
        [.pushSendMessage hello, .onWrite, .again, .call] final ∧ ¬final.SentThenCalled) ∧
      ∃ final, (acknowledging 128).Run (.initial 128)
        [.pushSendMessage hello, .onWrite, .accepted 27, .call, .pushSendMessage hello,
          .returned, .call] final ∧ ¬final.SentThenCalled := by
  constructor
  · rcases @run_of_steps _ 128 [.pushSendMessage hello, .onWrite, .again, .call]
        (fun final => (final.called, final.frames, final.sentAt)) ([0], [⟨0, 0, 27⟩], [])
        (by decide +kernel) with ⟨final, run, observed⟩
    simp only [Prod.mk.injEq] at observed
    rcases observed with ⟨called, frames, sentAt⟩
    refine ⟨final, run, fun sent => ?_⟩
    rcases sent.accepted 0 (by simp [called]) with ⟨frame, member, _, accepted⟩
    rw [frames, List.mem_singleton] at member
    have first := accepted 0 (by simp [member]) (by simp [member])
    rw [sentAt] at first
    cases first
  · rcases @run_of_steps _ 128 [.pushSendMessage hello, .onWrite, .accepted 27, .call,
        .pushSendMessage hello, .returned, .call]
        (fun final => (final.called, final.frames)) ([0, 1], [⟨0, 0, 27⟩])
        (by decide +kernel) with ⟨final, run, observed⟩
    simp only [Prod.mk.injEq] at observed
    rcases observed with ⟨called, frames⟩
    refine ⟨final, run, fun sent => ?_⟩
    rcases sent.accepted 1 (by simp [called]) with ⟨frame, member, same, _⟩
    rw [frames, List.mem_singleton] at member
    rw [member] at same
    cases same

end Acknowledging

end NetRpc.TcpConnection
