import NetRpc.Coder.RoundTrip
import NetRpc.Coder.Pass
import NetRpc.Foundation.Transition

/-! # Decoding a stream that arrives in pieces

The stream is cut into chunks. Each chunk is appended to the in-buffer and the
decoder is called. A call that comes back leaves an incomplete frame behind,
whose bytes the next call scans again.
-/

namespace NetRpc.TinyPBCoder

open TinyPBProtocol

/-! ## Cutting a stream at a byte -/

/-- `tail` is a beginning of the stream that holds no complete frame. -/
def Incomplete (tail : Bytes) : List TinyPBProtocol → Prop
  | [] => tail = []
  | message :: _ => tail <+: frame message ∧ tail ≠ frame message

theorem incomplete_nil (messages : List TinyPBProtocol) : Incomplete [] messages := by
  cases messages with
  | nil => rfl
  | cons message later =>
      refine ⟨List.nil_prefix, fun empty => ?_⟩
      have positive := frame_length_pos message
      rw [← empty] at positive
      exact Nat.lt_irrefl 0 positive

/-- Any beginning of a stream is some whole frames and an incomplete one. -/
theorem cut_stream : ∀ {messages : List TinyPBProtocol} {arrived missing : Bytes},
    arrived ++ missing = stream messages →
    ∃ complete later tail, messages = complete ++ later ∧
      arrived = stream complete ++ tail ∧ tail ++ missing = stream later ∧
      Incomplete tail later
  | [], arrived, missing, equal => by
      rw [stream_nil, List.append_eq_nil_iff] at equal
      rw [equal.1, equal.2]
      exact ⟨[], [], [], rfl, rfl, rfl, rfl⟩
  | message :: messages, arrived, missing, equal => by
      by_cases inFirst : arrived <+: frame message ∧ arrived ≠ frame message
      · exact ⟨[], message :: messages, arrived, rfl, rfl, equal, inFirst⟩
      · have beyond : ∃ rest, arrived = frame message ++ rest ∧
            rest ++ missing = stream messages := by
          rw [stream_cons] at equal
          rcases List.append_eq_append_iff.mp equal with
            ⟨rest, frameEqual, missingEqual⟩ | ⟨rest, arrivedEqual, restEqual⟩
          · have whole : arrived = frame message := by
              by_contra different
              exact inFirst ⟨⟨rest, frameEqual.symm⟩, different⟩
            have nothing : rest = [] := List.self_eq_append_right.mp (whole ▸ frameEqual)
            rw [nothing] at missingEqual
            exact ⟨[], by rw [whole, List.append_nil], missingEqual⟩
          · exact ⟨rest, arrivedEqual, restEqual.symm⟩
        rcases beyond with ⟨rest, arrivedEqual, restEqual⟩
        rcases cut_stream restEqual with
          ⟨complete, later, tail, messagesEqual, restSplit, laterEqual, incomplete⟩
        refine ⟨message :: complete, later, tail, ?_, ?_, laterEqual, incomplete⟩
        · rw [messagesEqual, List.cons_append]
        · rw [arrivedEqual, restSplit, stream_cons, List.append_assoc]

/-- Whole frames leave nothing incomplete, however the bytes are cut. -/
theorem incomplete_of_stream : ∀ {messages complete later : List TinyPBProtocol}
    {tail : Bytes}, (∀ message ∈ messages, message.Admissible) →
    (∀ message ∈ complete ++ later, message.Admissible) →
    stream messages = stream complete ++ tail → Incomplete tail later → tail = []
  | [], complete, later, tail, _, _, equal, _ =>
      (List.append_eq_nil_iff.mp equal.symm).2
  | message :: messages, [], later, tail, admissible, others, equal, incomplete => by
      cases later with
      | nil => exact incomplete
      | cons other later =>
          rw [stream_cons, stream_nil, List.nil_append] at equal
          have inTail : frame message <+: tail := ⟨_, equal⟩
          have same := frame_prefixFree (admissible message List.mem_cons_self)
            (others other List.mem_cons_self) (inTail.trans incomplete.1)
          have atLeast := inTail.length_le
          rw [same] at atLeast
          exact absurd (incomplete.1.eq_of_length_le atLeast) incomplete.2
  | message :: messages, other :: complete, later, tail, admissible, others, equal,
      incomplete => by
      have first := admissible message List.mem_cons_self
      have second := others other List.mem_cons_self
      rw [stream_cons, stream_cons, List.append_assoc] at equal
      have same : frame message = frame other := by
        have here : frame message <+: frame other ++ (stream complete ++ tail) := ⟨_, equal⟩
        rcases List.prefix_or_prefix_of_prefix here (List.prefix_append _ _) with
          shorter | longer
        · exact frame_prefixFree first second shorter
        · exact (frame_prefixFree second first longer).symm
      rw [same] at equal
      exact incomplete_of_stream
        (fun message member => admissible message (List.mem_cons_of_mem _ member))
        (fun message member => others message (List.mem_cons_of_mem _ member))
        (List.append_cancel_left equal) incomplete

/-! ## The session -/

/-- The server's side of one connection, as far as the decoder is concerned. A
call that does not come back takes the IO thread with it. -/
inductive Session
  | receiving (inBuffer : TcpBuffer) (emitted : List TinyPBProtocol)
  | lost

inductive Event
  | append (chunk : Bytes)
  | decode

inductive SessionStep : Session → Event → Session → Prop
  | append {inBuffer next : TcpBuffer} {emitted : List TinyPBProtocol} {chunk : Bytes} :
      next.Spare → next.readable = inBuffer.readable ++ chunk →
      SessionStep (.receiving inBuffer emitted) (.append chunk) (.receiving next emitted)
  | decode {inBuffer final : TcpBuffer} {emitted items : List TinyPBProtocol} :
      Loop.Returns body inBuffer items final →
      SessionStep (.receiving inBuffer emitted) .decode
        (.receiving final (emitted ++ items))
  | hang {inBuffer : TcpBuffer} {emitted : List TinyPBProtocol} :
      ¬Loop.Terminates body inBuffer →
      SessionStep (.receiving inBuffer emitted) .decode .lost

def session : Transition.System Session Event where
  Initial state := ∃ inBuffer, state = .receiving inBuffer [] ∧
    TcpBuffer.Spare inBuffer ∧ TcpBuffer.readable inBuffer = []
  Step := SessionStep

/-- A read that leaves spare capacity appends its bytes as a chunk. -/
theorem receive_step {inBuffer : TcpBuffer} (spare : inBuffer.Spare) {chunk : Bytes}
    (fits : chunk.length < inBuffer.writeAble) (emitted : List TinyPBProtocol) :
    session.Step (.receiving inBuffer emitted) (.append chunk)
      (.receiving (inBuffer.receive chunk) emitted) :=
  .append (TcpBuffer.receive_spare spare fits) (TcpBuffer.receive_readable spare fits)

/-- The decoder is called after each chunk. -/
def feed (chunks : List Bytes) : List Event :=
  chunks.flatMap fun chunk => [.append chunk, .decode]

/-! ## Undisturbed calls -/

/-- No start byte of the buffer leads the scan to an end marker or out of the
storage. -/
structure Quiet (buffer : TcpBuffer) : Prop where
  fits : ∀ i, buffer.readIndex ≤ i → i < buffer.writeIndex →
    Marks buffer.buffer buffer.writeIndex i →
      ProbeFits (storageRegion buffer.buffer) buffer.buffer buffer.writeIndex i
  rejects : ∀ i, buffer.readIndex ≤ i → i < buffer.writeIndex →
    ¬Accepts buffer.buffer buffer.writeIndex i

/-- Behind the complete frames of the buffer, the incomplete one is quiet. -/
def Undisturbed (buffer : TcpBuffer) : Prop :=
  ∀ complete later tail, (∀ message ∈ complete ++ later, message.Admissible) →
    buffer.readable = stream complete ++ tail → Incomplete tail later →
    Quiet (consume buffer complete)

/-- Chunks are always taken. A call of the decoder is allowed on an undisturbed
buffer. -/
def Calm : Session → Event → Prop
  | .receiving inBuffer _, .decode => Undisturbed inBuffer
  | _, _ => True

theorem quiet_iff {buffer : TcpBuffer} (valid : buffer.Valid) :
    Quiet buffer ↔ body buffer = .ok .leave := by
  rw [body_leave_iff valid]
  constructor
  · intro quiet
    refine ⟨⟨?_, ?_⟩, ?_⟩
    · intro i isScanned
      exact quiet.fits i isScanned.1.1 isScanned.2
    · intro i isScanned accepts
      exact absurd accepts (quiet.rejects i isScanned.1.1 isScanned.2)
    · intro i isScanned
      exact quiet.rejects i isScanned.1.1 isScanned.2
  · intro leaves
    have scanned : ∀ i, buffer.readIndex ≤ i → i < buffer.writeIndex →
        Scanned buffer i := by
      intro i above below
      induction i using Nat.strongRecOn with
      | ind i induction =>
          refine ⟨⟨above, fun k kAbove kBelow => ?_⟩, below⟩
          exact leaves.2 k (induction k kBelow kAbove (Nat.lt_trans kBelow below))
    exact ⟨fun i above below => leaves.1.scan i (scanned i above below),
      fun i above below => leaves.2 i (scanned i above below)⟩

theorem quiet_of_empty {buffer : TcpBuffer} (valid : buffer.Valid)
    (empty : buffer.readable = []) : Quiet buffer :=
  (quiet_iff valid).mpr (body_empty valid empty)

/-- A call between two frames is undisturbed. -/
theorem undisturbed_of_stream {messages : List TinyPBProtocol} {buffer : TcpBuffer}
    (spare : buffer.Spare) (admissible : ∀ message ∈ messages, message.Admissible)
    (readable : buffer.readable = stream messages) : Undisturbed buffer := by
  intro complete later tail others split incomplete
  have nothing := incomplete_of_stream admissible others (readable ▸ split) incomplete
  rcases returns_of_consume spare
      (fun message member => others message (List.mem_append_left _ member)) split with
    ⟨finalSpare, finalReadable, _, _⟩
  exact quiet_of_empty finalSpare.toValid (finalReadable.trans nothing)

/-- So is a call in which too little has arrived for a frame, if the scan finds
nothing there. -/
theorem undisturbed_of_short {buffer : TcpBuffer} (valid : buffer.Valid)
    (short : buffer.readable.length < 26) (left : body buffer = .ok .leave) :
    Undisturbed buffer := by
  intro complete later tail _ split _
  cases complete with
  | nil => exact (quiet_iff valid).mpr left
  | cons message complete =>
      have size := congrArg List.length split
      rw [stream_cons, List.length_append, List.length_append, frame_length,
        frameLength_eq] at size
      omega

/-- One call on an undisturbed buffer emits the complete frames and keeps the
incomplete one. -/
theorem decode_undisturbed {messages : List TinyPBProtocol} {buffer : TcpBuffer}
    {missing : Bytes} (spare : buffer.Spare)
    (admissible : ∀ message ∈ messages, message.Admissible)
    (arrived : buffer.readable ++ missing = stream messages)
    (undisturbed : Undisturbed buffer) :
    ∃ complete later final, messages = complete ++ later ∧
      Loop.Returns body buffer (complete.map measured) final ∧ final.Spare ∧
      final.readable ++ missing = stream later ∧ Incomplete final.readable later := by
  rcases cut_stream arrived with
    ⟨complete, later, tail, messagesEqual, readable, rest, incomplete⟩
  rw [messagesEqual] at admissible
  have quiet := undisturbed complete later tail admissible readable incomplete
  rcases returns_of_consume spare
      (fun message member => admissible message (List.mem_append_left _ member))
      readable with ⟨finalSpare, finalReadable, _, returns⟩
  have left := (quiet_iff finalSpare.toValid).mp quiet
  have whole := returns (.leave left)
  rw [List.append_nil] at whole
  rw [← finalReadable] at rest incomplete
  exact ⟨complete, later, _, messagesEqual, whole, finalSpare, rest, incomplete⟩

/-! ## Runs -/

/-- What has been emitted are the first messages, and what is in the buffer is
an incomplete beginning of the others. -/
def Settled (messages : List TinyPBProtocol) (missing : Bytes) (state : Session) : Prop :=
  ∃ inBuffer emitted later, state = .receiving inBuffer (emitted.map measured) ∧
    TcpBuffer.Spare inBuffer ∧ messages = emitted ++ later ∧
    TcpBuffer.readable inBuffer ++ missing = stream later ∧
    Incomplete (TcpBuffer.readable inBuffer) later

section Runs

variable {messages : List TinyPBProtocol}
variable (admissible : ∀ message ∈ messages, message.Admissible)

include admissible

/-- One chunk and the call behind it. -/
theorem settled_round {chunk missing : Bytes} {current middle final : Session}
    (settled : Settled messages (chunk ++ missing) current)
    (append : (session.restrict Calm).Step current (.append chunk) middle)
    (decode : (session.restrict Calm).Step middle .decode final) :
    Settled messages missing final := by
  rcases settled with ⟨inBuffer, emitted, later, rfl, spare, messagesEqual, rest, _⟩
  rcases append with ⟨appended, _⟩
  rcases decode with ⟨decoded, undisturbed⟩
  cases appended with
  | append nextSpare nextReadable =>
      rw [messagesEqual] at admissible
      rw [← List.append_assoc, ← nextReadable] at rest
      rcases decode_undisturbed nextSpare
          (fun message member => admissible message (List.mem_append_right _ member))
          rest undisturbed with
        ⟨complete, remaining, left, laterEqual, returns, leftSpare, leftRest, incomplete⟩
      cases decoded with
      | decode other =>
          rcases other.unique returns with ⟨rfl, rfl⟩
          refine ⟨_, emitted ++ complete, remaining, ?_, leftSpare, ?_, leftRest, incomplete⟩
          · rw [List.map_append]
          · rw [messagesEqual, laterEqual, List.append_assoc]
      | hang endless => exact absurd ⟨_, _, returns⟩ endless

theorem settled_run : ∀ {chunks : List Bytes} {missing : Bytes} {initial final : Session},
    Settled messages (chunks.flatten ++ missing) initial →
    (session.restrict Calm).Run initial (feed chunks) final →
    Settled messages missing final
  | [], _, _, _, settled, run => by
      cases run with
      | nil => exact settled
  | chunk :: chunks, missing, _, _, settled, run => by
      rw [List.flatten_cons, List.append_assoc] at settled
      cases run with
      | cons append rest =>
          cases rest with
          | cons decode rest =>
              exact settled_run (settled_round admissible settled append decode) rest

/-- In a calm run over any beginning of the stream, exactly the messages whose
frames have arrived are emitted, in order, and no call is lost. Over the whole
stream these are all the messages. -/
theorem chunked_decode {chunks : List Bytes} {missing : Bytes}
    (cut : chunks.flatten ++ missing = stream messages) {initial final : Session}
    (start : session.Initial initial)
    (run : (session.restrict Calm).Run initial (feed chunks) final) :
    ∃ inBuffer emitted, final = .receiving inBuffer (emitted.map measured) ∧
      emitted <+: messages ∧ (missing = [] → emitted = messages) := by
  rcases start with ⟨inBuffer, rfl, spare, empty⟩
  have settled : Settled messages (chunks.flatten ++ missing) (.receiving inBuffer []) := by
    refine ⟨inBuffer, [], messages, rfl, spare, rfl, ?_, ?_⟩
    · rw [empty, cut, List.nil_append]
    · rw [empty]
      exact incomplete_nil messages
  rcases settled_run admissible settled run with
    ⟨last, emitted, later, finalEqual, _, messagesEqual, rest, incomplete⟩
  refine ⟨last, emitted, finalEqual, ⟨later, messagesEqual.symm⟩, ?_⟩
  intro nothingMissing
  rw [nothingMissing, List.append_nil] at rest
  cases later with
  | nil => rw [messagesEqual, List.append_nil]
  | cons message later =>
      rcases incomplete with ⟨isPrefix, notWhole⟩
      rw [rest, stream_cons] at isPrefix notWhole
      have whole := isPrefix.eq_of_length_le (by rw [List.length_append]; omega)
      exact absurd whole notWhole

end Runs

/-! ## Two ways of cutting a stream -/

/-- The first ten bytes of the frame have been received. -/
def pingBegun : TcpBuffer :=
  (TcpBuffer.new 128).receive ((frame ping).take 10)

def pingWhole : TcpBuffer :=
  pingBegun.receive ((frame ping).drop 10)

/-- The first ten bytes of a frame hold its packet length. -/
theorem chunked_ping :
    ∃ final inBuffer emitted,
      (session.restrict Calm).Run (.receiving (TcpBuffer.new 128) [])
        (feed [(frame ping).take 10, (frame ping).drop 10]) final ∧
      final = .receiving inBuffer (emitted.map measured) ∧ emitted = [ping] := by
  have newSpare : (TcpBuffer.new 128).Spare :=
    TcpBuffer.new_spare (by decide) (by decide +kernel)
  have firstFits : ((frame ping).take 10).length < (TcpBuffer.new 128).writeAble := by
    decide +kernel
  have firstSpare : pingBegun.Spare := TcpBuffer.receive_spare newSpare firstFits
  have firstLeft : body pingBegun = .ok .leave := by
    decide +kernel
  have firstCalm : Undisturbed pingBegun :=
    undisturbed_of_short firstSpare.toValid (by decide +kernel) firstLeft
  have secondFits : ((frame ping).drop 10).length < pingBegun.writeAble := by
    decide +kernel
  have secondSpare : pingWhole.Spare := TcpBuffer.receive_spare firstSpare secondFits
  have admissible : ∀ message ∈ [ping], message.Admissible := by
    simp [ping_admissible]
  have secondReadable : pingWhole.readable = stream [ping] := by
    decide +kernel
  have secondCalm := undisturbed_of_stream secondSpare admissible secondReadable
  rcases @decode_undisturbed [ping] pingWhole [] secondSpare admissible
      (by rw [secondReadable, List.append_nil]) secondCalm with
    ⟨complete, later, final, _, returns, _⟩
  have run : (session.restrict Calm).Run (.receiving (TcpBuffer.new 128) [])
      (feed [(frame ping).take 10, (frame ping).drop 10])
      (.receiving final ([] ++ [] ++ complete.map measured)) :=
    .cons ⟨receive_step newSpare firstFits [], trivial⟩ <|
    .cons ⟨.decode (.leave firstLeft), firstCalm⟩ <|
    .cons ⟨receive_step firstSpare secondFits [], trivial⟩ <|
    .cons ⟨.decode returns, secondCalm⟩ (.nil _)
  rcases @chunked_decode [ping] admissible _ [] (by decide) _ _
      ⟨_, rfl, newSpare, TcpBuffer.new_readable 128⟩ run with
    ⟨inBuffer, emitted, finalEqual, _, whole⟩
  exact ⟨_, inBuffer, emitted, run, finalEqual, whole rfl⟩

/-- All of the frame but its checksum and end marker has been received. -/
def tunnelBegun : TcpBuffer :=
  (TcpBuffer.new 128).receive ((frame tunnel).take 64)

/-- The frame inside the payload has been consumed. -/
def tunnelConsumed : TcpBuffer :=
  tunnelBegun.moveReadIndex 42

def tunnelWhole : TcpBuffer :=
  tunnelConsumed.receive ((frame tunnel).drop 64)

/-- All of the frame but its checksum and end marker arrives first. The frame
in its payload is then taken for a message of its own. -/
theorem chunked_tunnel_invents :
    tunnel.Admissible ∧
      ((frame tunnel).take 64 ++ (frame tunnel).drop 64 = stream [tunnel]) ∧
      session.Initial (.receiving (TcpBuffer.new 128) []) ∧
      ∃ final, session.Run (.receiving (TcpBuffer.new 128) [])
          (feed [(frame tunnel).take 64, (frame tunnel).drop 64]) final ∧
        ∀ inBuffer, final ≠ .receiving inBuffer [tunnel.measured] := by
  have newSpare : (TcpBuffer.new 128).Spare :=
    TcpBuffer.new_spare (by decide) (by decide +kernel)
  have firstFits : ((frame tunnel).take 64).length < (TcpBuffer.new 128).writeAble := by
    decide +kernel
  have firstPassed : body tunnelBegun = .ok (.again tunnelConsumed (some ping.measured)) := by
    decide +kernel
  have consumedSpare : tunnelConsumed.Spare :=
    turns_spare (TcpBuffer.receive_spare newSpare firstFits) ⟨_, firstPassed⟩
  have consumedLeft : body tunnelConsumed = .ok .leave := by
    decide +kernel
  have secondFits : ((frame tunnel).drop 64).length < tunnelConsumed.writeAble := by
    decide +kernel
  have secondLeft : body tunnelWhole = .ok .leave := by
    decide +kernel
  refine ⟨tunnel_admissible, by simp, ⟨_, rfl, newSpare, TcpBuffer.new_readable 128⟩,
    .receiving tunnelWhole ([] ++ [ping.measured] ++ []), ?_, ?_⟩
  · exact .cons (receive_step newSpare firstFits []) <|
      .cons (.decode (.again firstPassed (.leave consumedLeft))) <|
      .cons (receive_step consumedSpare secondFits _) <|
      .cons (.decode (.leave secondLeft)) (.nil _)
  · intro inBuffer same
    have emitted := (Session.receiving.inj same).2
    exact absurd emitted (by decide +kernel)

end NetRpc.TinyPBCoder
