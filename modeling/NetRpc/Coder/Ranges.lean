import NetRpc.Coder.Pass
import NetRpc.Coder.RoundTrip
import NetRpc.Foundation.Transition

/-! # Which bytes of the stream a frame occupies

The scan may pass over stray bytes before it accepts a frame, but the read
cursor is moved by the length of the frame from where it stood. As many bytes
of the frame as stray bytes have been passed over are then scanned again.
-/

namespace NetRpc.TinyPBCoder

/-- The first and the last byte of a frame, counted from the beginning of the
received stream. -/
structure Range where
  first : Nat
  last : Nat
deriving DecidableEq

/-- The in-buffer, with the number of bytes received so far and the frames
accepted so far. -/
structure Reception where
  inBuffer : TcpBuffer
  received : Nat
  frames : List Range

inductive ReceptionEvent
  | append (chunk : Bytes)
  /-- One iteration of a call of the decoder accepts a frame. -/
  | pass

namespace Reception

/-- Where the byte at `index` of the storage stands in the received stream. -/
def position (reception : Reception) (index : Nat) : Nat :=
  reception.received - (reception.inBuffer.writeIndex - index)

/-- What the scan of the next iteration comes to. -/
def found (reception : Reception) (candidate : Candidate) : Prop :=
  (scan reception.inBuffer.buffer reception.inBuffer.writeIndex
    reception.inBuffer.readIndex
    (reception.inBuffer.writeIndex - reception.inBuffer.readIndex)).Yields (some candidate)

instance (reception : Reception) (candidate : Candidate) :
    Decidable (reception.found candidate) :=
  inferInstanceAs (Decidable (Traced.Yields _ _))

def range (reception : Reception) (candidate : Candidate) : Range where
  first := reception.position candidate.startIndex
  last := reception.position candidate.startIndex +
    (candidate.endIndex - candidate.startIndex).toNat

/-- The frames follow one another in the stream, so no byte is in two of
them. -/
def Disjoint (reception : Reception) : Prop :=
  reception.frames.Pairwise fun before after => before.last < after.first

/-- No byte up to the end of a frame that has been accepted before is taken for
the start of a frame. -/
def NoStaleStart (reception : Reception) : ReceptionEvent → Prop
  | .append _ => True
  | .pass => ∀ i, reception.inBuffer.readIndex ≤ i → i < reception.inBuffer.writeIndex →
      (∃ frame ∈ reception.frames, reception.position i ≤ frame.last) →
      ¬Accepts reception.inBuffer.buffer reception.inBuffer.writeIndex i

end Reception

/-- An iteration that accepts a frame of positive length goes around. -/
inductive ReceptionStep : Reception → ReceptionEvent → Reception → Prop
  | append {current : Reception} {next : TcpBuffer} {chunk : Bytes} :
      next.Spare → next.readable = current.inBuffer.readable ++ chunk →
      ReceptionStep current (.append chunk)
        { current with inBuffer := next, received := current.received + chunk.length }
  | pass {current : Reception} {next : TcpBuffer} {candidate : Candidate}
      {item : Option TinyPBProtocol} :
      current.found candidate → 0 < candidate.pkLen.toInt →
      body current.inBuffer = .ok (.again next item) →
      ReceptionStep current .pass
        { current with
          inBuffer := next
          frames := current.frames ++ [current.range candidate] }

/-- Any contents of the in-buffer, and no frame accepted yet. -/
def reception : Transition.System Reception ReceptionEvent where
  Initial state := TcpBuffer.Spare state.inBuffer ∧
    TcpBuffer.readAble state.inBuffer ≤ state.received ∧ state.frames = []
  Step := ReceptionStep

namespace Reception

/-- No stray byte stands in front of the frame that the pass accepts. -/
def InFront (reception : Reception) : ReceptionEvent → Prop
  | .append _ => True
  | .pass => ∀ i, Scanned reception.inBuffer i →
      Accepts reception.inBuffer.buffer reception.inBuffer.writeIndex i →
      i = reception.inBuffer.readIndex

/-- All accepted frames have been consumed to their ends. -/
def Consumed (reception : Reception) : Prop :=
  ∀ frame ∈ reception.frames, frame.last < reception.position reception.inBuffer.readIndex

end Reception

/-- The read cursor stands inside the stream. -/
structure Located (state : Reception) : Prop where
  spare : state.inBuffer.Spare
  within : state.inBuffer.readAble ≤ state.received

section Step

variable {current next : Reception} {event : ReceptionEvent}

/-- What is accepted and what is consumed when the scan comes to a candidate. -/
theorem found_spec (spare : current.inBuffer.Spare) {candidate : Candidate}
    {moved : TcpBuffer} {item : Option TinyPBProtocol} (found : current.found candidate)
    (passed : body current.inBuffer = .ok (.again moved item)) :
    Scanned current.inBuffer candidate.startIndex ∧
      Accepts current.inBuffer.buffer current.inBuffer.writeIndex candidate.startIndex ∧
      candidate.pkLen.toInt =
        lengthAt current.inBuffer.buffer (candidate.startIndex + 1) ∧
      candidate.endIndex = candidate.startIndex + candidate.pkLen.toInt - 1 ∧
      moved = current.inBuffer.moveReadIndex candidate.pkLen.toInt := by
  rcases scan_found spare.toValid found with ⟨_, k, scannedToo, acceptsToo, rfl⟩
  rcases (body_again_iff spare.toValid).mp passed with
    ⟨_, i, isScanned, accepts, _, movedEqual⟩
  rw [isScanned.1.unique accepts scannedToo.1 acceptsToo] at movedEqual
  exact ⟨scannedToo, acceptsToo, rfl, rfl, movedEqual⟩

/-- A pass consumes as many bytes as the accepted frame has. -/
theorem pass_readAble (spare : current.inBuffer.Spare) {candidate : Candidate}
    {moved : TcpBuffer} {item : Option TinyPBProtocol} (found : current.found candidate)
    (positive : 0 < candidate.pkLen.toInt)
    (passed : body current.inBuffer = .ok (.again moved item)) :
    moved.Spare ∧ moved.readAble + candidate.pkLen.toInt = current.inBuffer.readAble := by
  rcases found_spec spare found passed with ⟨isScanned, accepts, length, _, rfl⟩
  have inside := length ▸ moved_le_writeIndex isScanned accepts
  have movedSpare := TcpBuffer.moveReadIndex_spare spare inside
  have writeLtSize := spare.writeLtSize
  have natural : candidate.pkLen.toInt = (candidate.pkLen.toInt.toNat : Nat) := by omega
  have left := TcpBuffer.moveReadIndex_drop spare.toValid
    (show current.inBuffer.readIndex + candidate.pkLen.toInt.toNat ≤ _ by omega) (by omega)
  have size := congrArg List.length left
  rw [← natural, List.length_drop, TcpBuffer.readable_length movedSpare.toValid,
    TcpBuffer.readable_length spare.toValid] at size
  refine ⟨movedSpare, ?_⟩
  rw [size, TcpBuffer.readAble]
  omega

theorem append_readAble (spare : current.inBuffer.Spare) {buffer : TcpBuffer} {chunk : Bytes}
    (nextSpare : buffer.Spare) (readable : buffer.readable = current.inBuffer.readable ++ chunk) :
    buffer.readAble = current.inBuffer.readAble + chunk.length := by
  have size := congrArg List.length readable
  rwa [List.length_append, TcpBuffer.readable_length nextSpare.toValid,
    TcpBuffer.readable_length spare.toValid] at size

theorem located_step (located : Located current)
    (step : reception.Step current event next) : Located next := by
  have within := located.within
  cases step with
  | append nextSpare readable =>
      have grown := append_readAble located.spare nextSpare readable
      exact ⟨nextSpare, by simp only; omega⟩
  | pass found positive passed =>
      rcases pass_readAble located.spare found positive passed with ⟨movedSpare, consumed⟩
      exact ⟨movedSpare, by simp only; omega⟩

theorem position_lt_iff (located : Located current) {i k : Nat}
    (iLower : current.inBuffer.readIndex ≤ i) (iUpper : i ≤ current.inBuffer.writeIndex)
    (kLower : current.inBuffer.readIndex ≤ k) (kUpper : k ≤ current.inBuffer.writeIndex) :
    current.position i < current.position k ↔ i < k := by
  have within := located.within
  rw [TcpBuffer.readAble] at within
  simp only [Reception.position]
  omega

/-- A pass keeps the frames apart exactly when no byte of an earlier frame is
taken for a start. -/
theorem disjoint_step_iff (located : Located current) (disjoint : current.Disjoint)
    (step : reception.Step current event next) :
    next.Disjoint ↔ current.NoStaleStart event := by
  cases step with
  | append => exact iff_of_true disjoint trivial
  | @pass moved candidate item found positive passed =>
      rcases found_spec located.spare found passed with ⟨isScanned, accepts, _⟩
      rw [Reception.Disjoint, List.pairwise_append]
      constructor
      · intro apart i lower upper stale acceptsToo
        rcases stale with ⟨frame, member, inFrame⟩
        have behind := apart.2.2 frame member _ (List.mem_singleton_self _)
        have earlier : current.position i < current.position candidate.startIndex :=
          Nat.lt_of_le_of_lt inFrame behind
        rw [position_lt_iff located lower (Nat.le_of_lt upper) isScanned.1.1
          (Nat.le_of_lt isScanned.2)] at earlier
        exact isScanned.1.2 i lower earlier acceptsToo
      · intro fresh
        refine ⟨disjoint, List.pairwise_singleton _ _, fun frame member other isLast => ?_⟩
        rw [List.mem_singleton] at isLast
        rw [isLast]
        by_contra inFrame
        exact fresh candidate.startIndex isScanned.1.1 isScanned.2
          ⟨frame, member, Nat.not_lt.mp inFrame⟩ accepts

/-- A frame at the read cursor is consumed to its end. -/
theorem consumed_step (located : Located current) (consumed : current.Consumed)
    (step : (reception.restrict Reception.InFront).Step current event next) :
    next.Consumed := by
  have within := located.within
  rcases step with ⟨step, inFront⟩
  cases step with
  | append nextSpare readable =>
      have grown := append_readAble located.spare nextSpare readable
      rw [TcpBuffer.readAble, TcpBuffer.readAble] at grown
      rw [TcpBuffer.readAble] at within
      intro frame member
      have behind := consumed frame member
      simp only [Reception.position] at behind ⊢
      omega
  | @pass moved candidate item found positive passed =>
      rcases found_spec located.spare found passed with ⟨isScanned, accepts, _, ends, _⟩
      rcases pass_readAble located.spare found positive passed with ⟨_, shorter⟩
      have front := inFront candidate.startIndex isScanned accepts
      rw [TcpBuffer.readAble, TcpBuffer.readAble] at shorter
      rw [TcpBuffer.readAble] at within
      intro frame member
      simp only [Reception.position]
      rcases List.mem_append.mp member with before | now
      · have behind := consumed frame before
        simp only [Reception.position] at behind
        omega
      · rw [List.mem_singleton] at now
        simp only [now, Reception.range, Reception.position, front, ends]
        omega

/-- Where no stray byte ever stands in front of a frame, no byte is in two
frames. -/
theorem front_frames_disjoint {initial : Reception} (start : reception.Initial initial)
    {events : List ReceptionEvent} {final : Reception}
    (run : (reception.restrict Reception.InFront).Run initial events final) :
    final.Disjoint := by
  have kept : ∀ current event next,
      Located current ∧ current.Disjoint ∧ current.Consumed →
      (reception.restrict Reception.InFront).Step current event next →
      Located next ∧ next.Disjoint ∧ next.Consumed := by
    intro current event next holds step
    rcases holds with ⟨located, disjoint, consumed⟩
    refine ⟨located_step located step.1, ?_, consumed_step located consumed step⟩
    apply (disjoint_step_iff located disjoint step.1).mpr
    cases event with
    | append => trivial
    | pass =>
        intro i lower upper stale
        rcases stale with ⟨frame, member, inFrame⟩
        have behind := Nat.lt_of_le_of_lt inFrame (consumed frame member)
        have ordered := located.spare.readLeWrite
        rw [position_lt_iff located lower (Nat.le_of_lt upper) (Nat.le_refl _) ordered] at behind
        exact absurd behind (Nat.not_lt.mpr lower)
  have empty := start.2.2
  refine (run.preserves _ kept ⟨⟨start.1, start.2.1⟩, ?_, ?_⟩).2.1
  · rw [Reception.Disjoint, empty]
    exact List.Pairwise.nil
  · intro frame member
    rw [empty] at member
    cases member

end Step

/-- In every run the accepted frames stay apart exactly when, at every pass, no
byte that stray bytes have left over of an earlier frame is taken for the start
of a frame. -/
theorem ranges_disjoint_iff {initial : Reception} (start : reception.Initial initial)
    (events : List ReceptionEvent) :
    reception.Always Reception.Disjoint initial events ↔
      reception.EachStep (fun current event _ => current.NoStaleStart event) initial
        events := by
  have located : Located initial := ⟨start.1, start.2.1⟩
  have disjoint : initial.Disjoint := by
    rw [Reception.Disjoint, start.2.2]
    exact List.Pairwise.nil
  exact Transition.System.always_iff (fun _ _ _ => located_step)
    (fun _ _ _ => disjoint_step_iff) located disjoint events

/-- A buffer with `count` stray bytes in front of a frame and another frame
behind it. -/
def strayFront (count : Nat) : Reception where
  inBuffer := {
    readIndex := 0
    writeIndex := count + 73
    buffer := List.replicate count 0 ++ frame ping ++ frame { msgId := ascii "bytes" } ++ [0] }
  received := count + 73
  frames := []

/-- After a pass over `strayFront count` that finds the frame behind the stray
bytes. -/
def strayConsumed (count : Nat) : Reception where
  inBuffer := (strayFront count).inBuffer.moveReadIndex 42
  received := count + 73
  frames := [⟨count, count + 41⟩]

theorem strayFront_pass {count : Nat}
    (found : (strayFront count).found ⟨count, count + 41, 42⟩)
    (passed : body (strayFront count).inBuffer =
      .ok (.again (strayConsumed count).inBuffer (some ping.measured)))
    (located : (strayFront count).position count = count) :
    reception.Step (strayFront count) .pass (strayConsumed count) := by
  have range : (strayFront count).range ⟨count, count + 41, 42⟩ = ⟨count, count + 41⟩ := by
    have length : ((count : Int) + 41 - count).toNat = 41 := by omega
    simp only [Reception.range, located, length]
  have positive : 0 < (42 : Int32).toInt := by decide
  have step : reception.Step (strayFront count) .pass _ := .pass found positive passed
  rw [range] at step
  exact step

theorem pass_unique {current left right : Reception}
    (first : reception.Step current .pass left) (second : reception.Step current .pass right) :
    left = right := by
  cases first with
  | pass found _ passed =>
      cases second with
      | pass foundToo _ passedToo =>
          cases Option.some.inj (Traced.Yields.unique found foundToo)
          rw [passed] at passedToo
          cases passedToo
          rfl

/-- One stray byte leaves the end marker over, which starts no frame. -/
theorem ranges_disjoint_marker :
    reception.Initial (strayFront 1) ∧
      reception.Always Reception.Disjoint (strayFront 1) [.pass, .pass] := by
  have start : reception.Initial (strayFront 1) :=
    ⟨⟨⟨by decide +kernel, by decide +kernel, by decide +kernel⟩, by decide +kernel⟩,
      by decide +kernel, rfl⟩
  have first : reception.Step (strayFront 1) .pass (strayConsumed 1) :=
    strayFront_pass (by decide +kernel) (by decide +kernel) (by decide +kernel)
  refine ⟨start, (ranges_disjoint_iff start _).mpr ?_⟩
  intro earlier current event next isPrefix run step
  cases run with
  | nil =>
      rcases List.cons_prefix_cons.mp isPrefix with ⟨rfl, _⟩
      intro i _ _ stale
      rcases stale with ⟨frame, member, _⟩
      cases member
  | cons firstStep rest =>
      rcases List.cons_prefix_cons.mp isPrefix with ⟨rfl, later⟩
      cases pass_unique firstStep first
      cases rest with
      | nil =>
          rcases List.cons_prefix_cons.mp later with ⟨rfl, _⟩
          intro i lower upper stale
          rcases stale with ⟨frame, member, inFrame⟩
          cases List.mem_singleton.mp member
          have marker : i = 0 := by
            have cursors : (strayConsumed 1).inBuffer.writeIndex = 32 := by decide +kernel
            have stands : (strayConsumed 1).position i = 74 - (32 - i) := by
              rw [Reception.position, cursors]
              rfl
            have last : 74 - (32 - i) ≤ 42 := stands ▸ inFrame
            omega
          rw [marker]
          decide +kernel
      | cons secondStep rest =>
          have tooLong := later.length_le
          simp at tooLong

/-- As many stray bytes as the frame is long leave it over as a whole, and it
is decoded again. -/
theorem ranges_overlap :
    reception.Initial (strayFront 42) ∧
      ∃ final, reception.Run (strayFront 42) [.pass, .pass] final ∧
        final.frames = [⟨42, 83⟩, ⟨42, 83⟩] ∧ ¬final.Disjoint := by
  have start : reception.Initial (strayFront 42) :=
    ⟨⟨⟨by decide +kernel, by decide +kernel, by decide +kernel⟩, by decide +kernel⟩,
      by decide +kernel, rfl⟩
  have first : reception.Step (strayFront 42) .pass (strayConsumed 42) :=
    strayFront_pass (by decide +kernel) (by decide +kernel) (by decide +kernel)
  have passed : body (strayConsumed 42).inBuffer =
      .ok (.again ((strayConsumed 42).inBuffer.moveReadIndex 42) (some ping.measured)) := by
    decide +kernel
  have found : (strayConsumed 42).found ⟨0, 41, 42⟩ := by decide +kernel
  have second : reception.Step (strayConsumed 42) .pass _ := .pass found (by decide) passed
  refine ⟨start, _, .cons first (.cons second (.nil _)), by decide +kernel, ?_⟩
  rw [Reception.Disjoint]
  decide +kernel

end NetRpc.TinyPBCoder
