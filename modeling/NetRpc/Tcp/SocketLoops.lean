import NetRpc.Foundation.Polling
import NetRpc.Tcp.Client
import NetRpc.Tcp.ReceivePath

/-! # When the socket loops end

The loops of `onRead` and `onWrite` know how to leave after `EAGAIN`, after the
end of the stream and after a short read or a full write. No other `errno`
makes them leave: they call again, on a connection that stays connected.
-/

namespace NetRpc.TcpConnection

open Polling

/-! ## onRead -/

/-- A read that returns as much as it has been asked for. -/
def FillsRoom (room : Nat) (result : ReadResult) : Prop :=
  ∃ bytes, result = .data bytes ∧ bytes.length = room

/-- What `read()` may return, call after call. Each read asks for `room` bytes,
an error persists, and there are finitely many bytes to come. -/
structure ReadStream (room : Nat) (results : Nat → ReadResult) : Prop where
  bounded : ∀ call bytes, results call = .data bytes → 0 < bytes.length ∧ bytes.length ≤ room
  persists : ∀ call, results call = .failed → ∀ later ≥ call, results later = .failed
  finite : ∃ bound, ∀ call ≥ bound, ∀ bytes, results call ≠ .data bytes

/-- `m_state` after `onRead` on a connected connection. -/
def stateAfterRead : ReadEnd → TcpState
  | .readAll => .connected
  | .closed => .closed

/-- The loop leaves, and on an error it leaves the connection in another state. -/
def ReadEndsOnError (inBuffer : TcpBuffer) (results : Nat → ReadResult) : Prop :=
  EndsOnFailure (readLoop inBuffer) (· = .failed)
    (fun outcome => stateAfterRead outcome.1 ≠ .connected) results

/-- Full reads and failed ones are those after which the loop reads again. -/
theorem readLoop_isSome_iff : ∀ {results : List ReadResult} {inBuffer : TcpBuffer},
    inBuffer.Spare →
    (∀ bytes, .data bytes ∈ results → bytes.length ≤ inBuffer.writeAble) →
    ((readLoop inBuffer results).isSome ↔
      ∃ result ∈ results, ¬(FillsRoom inBuffer.writeAble result ∨ result = .failed))
  | [], _, _, _ => by simp [readLoop]
  | result :: later, inBuffer, spare, bounded => by
      have same := makeRoom_spare spare
      have boundedLater : ∀ bytes, .data bytes ∈ later → bytes.length ≤ inBuffer.writeAble :=
        fun bytes member => bounded bytes (List.mem_cons_of_mem _ member)
      rw [List.exists_mem_cons_iff]
      cases result with
      | data bytes =>
          by_cases full : bytes.length = inBuffer.writeAble
          · have room := receive_full_writeAble spare full
            have rest := readLoop_isSome_iff (receive_spare_of_le spare (Nat.le_of_eq full))
              (fun bytes member => room ▸ boundedLater bytes member)
            rw [room] at rest
            have fills : FillsRoom inBuffer.writeAble (.data bytes) := ⟨bytes, rfl, full⟩
            simp only [readLoop, same, Option.bind_eq_bind, Option.bind_some, full, if_true,
              rest, fills, true_or, not_true, false_or]
          · have short : ¬FillsRoom inBuffer.writeAble (.data bytes) := by
              rintro ⟨_, ⟨⟩, fills⟩
              exact full fills
            simp [readLoop, same, full, short]
      | eof => simp [readLoop, same, FillsRoom]
      | again => simp [readLoop, same, FillsRoom]
      | failed => simp [readLoop, same, readLoop_isSome_iff spare boundedLater]

theorem readEndsOnError_iff {inBuffer : TcpBuffer} (spare : inBuffer.Spare)
    {results : Nat → ReadResult} (stream : ReadStream inBuffer.writeAble results) :
    ReadEndsOnError inBuffer results ↔
      ∀ call, (∀ earlier < call, FillsRoom inBuffer.writeAble (results earlier)) →
        results call ≠ .failed := by
  have scans : Scans (readLoop inBuffer) (FillsRoom inBuffer.writeAble) (· = .failed) results := by
    intro calls
    apply readLoop_isSome_iff spare
    intro bytes member
    rcases mem_firsts.mp member with ⟨call, _, data⟩
    exact (stream.bounded call bytes data).2
  apply scans.endsOnFailure_iff stream.persists
  rcases stream.finite with ⟨bound, noData⟩
  refine ⟨bound, ?_⟩
  rintro call late ⟨bytes, data, _⟩
  exact noData call late bytes data

/-! ## onWrite -/

inductive WriteResult
  /-- `write()` returned a positive count. -/
  | count (count : Nat)
  /-- `write()` returned -1 with `EAGAIN`. -/
  | again
  /-- `write()` returned -1 with another `errno`. -/
  | failed
deriving DecidableEq

/-- The loop of `onWrite`, which returns `is_write_all`. It never moves the read
index. The result is `none` when it asks for more results than there are. -/
def writeLoop (outBuffer : TcpBuffer) : List WriteResult → Option Bool
  | [] => if outBuffer.readAble = 0 then some true else none
  | result :: later =>
      if outBuffer.readAble = 0 then some true
      else
        match result with
        | .count count =>
            if count ≥ outBuffer.readAble then some true else writeLoop outBuffer later
        | .again => some false
        | .failed => writeLoop outBuffer later

/-- A write that takes less than the `size` bytes it has been given. -/
def Partial (size : Nat) (result : WriteResult) : Prop :=
  ∃ count, result = .count count ∧ count < size

/-- What `write()` may return, call after call. -/
structure WriteStream (size : Nat) (results : Nat → WriteResult) : Prop where
  bounded : ∀ call count, results call = .count count → 0 < count ∧ count ≤ size
  persists : ∀ call, results call = .failed → ∀ later ≥ call, results later = .failed
  finite : ∃ bound, ∀ call ≥ bound, ∀ count, results call ≠ .count count

/-- `onWrite` does not change `m_state`, whatever `is_write_all` is. -/
def stateAfterWrite (_isWriteAll : Bool) : TcpState :=
  .connected

def WriteEndsOnError (outBuffer : TcpBuffer) (results : Nat → WriteResult) : Prop :=
  EndsOnFailure (writeLoop outBuffer) (· = .failed)
    (fun isWriteAll => stateAfterWrite isWriteAll ≠ .connected) results

theorem writeLoop_isSome_iff {outBuffer : TcpBuffer} (nonempty : outBuffer.readAble ≠ 0)
    (results : List WriteResult) :
    (writeLoop outBuffer results).isSome ↔
      ∃ result ∈ results, ¬(Partial outBuffer.readAble result ∨ result = .failed) := by
  induction results with
  | nil => simp [writeLoop, nonempty]
  | cons result later induction =>
      rw [List.exists_mem_cons_iff]
      cases result with
      | count count =>
          by_cases whole : outBuffer.readAble ≤ count
          · simp [writeLoop, nonempty, whole, Partial]
          · simp [writeLoop, nonempty, whole, Partial, induction]
      | again => simp [writeLoop, nonempty, Partial]
      | failed => simp [writeLoop, nonempty, induction]

theorem writeEndsOnError_of_empty {outBuffer : TcpBuffer} (empty : outBuffer.readAble = 0)
    (results : Nat → WriteResult) : WriteEndsOnError outBuffer results := by
  have left : writeLoop outBuffer [] = some true := if_pos empty
  constructor
  · exact ⟨0, true, left, fun fewer inside => absurd inside (Nat.not_lt_zero fewer)⟩
  · rintro calls outcome ⟨_, notEarlier⟩ ⟨call, inside, _⟩
    have none := notEarlier 0 (Nat.zero_lt_of_lt inside)
    rw [firsts, List.range_zero, List.map_nil, left] at none
    cases none

theorem writeEndsOnError_iff {outBuffer : TcpBuffer} {results : Nat → WriteResult}
    (stream : WriteStream outBuffer.readAble results) :
    WriteEndsOnError outBuffer results ↔
      outBuffer.readAble = 0 ∨
        ∀ call, (∀ earlier < call, Partial outBuffer.readAble (results earlier)) →
          results call ≠ .failed := by
  by_cases empty : outBuffer.readAble = 0
  · exact iff_of_true (writeEndsOnError_of_empty empty results) (.inl empty)
  · have scans : Scans (writeLoop outBuffer) (Partial outBuffer.readAble) (· = .failed) results :=
      fun calls => writeLoop_isSome_iff empty (firsts results calls)
    rw [or_iff_right empty]
    apply scans.endsOnFailure_iff stream.persists
    rcases stream.finite with ⟨bound, noCount⟩
    refine ⟨bound, ?_⟩
    rintro call late ⟨count, counted, _⟩
    exact noCount call late count counted

/-! ## Both loops -/

/-- The loops end on errors exactly where they do not meet one: `onRead` behind
full reads only, `onWrite` behind partial writes only. -/
theorem socketLoops_end_iff {size : Nat} (positive : 0 < size) (fits : size < 2 ^ 31)
    {inBuffer : TcpBuffer} (reachable : (inbound size).Reachable inBuffer)
    {reads : Nat → ReadResult} (readStream : ReadStream inBuffer.writeAble reads)
    {outBuffer : TcpBuffer} {writes : Nat → WriteResult}
    (writeStream : WriteStream outBuffer.readAble writes) :
    (ReadEndsOnError inBuffer reads ↔
      ∀ call, (∀ earlier < call, FillsRoom inBuffer.writeAble (reads earlier)) →
        reads call ≠ .failed) ∧
    (WriteEndsOnError outBuffer writes ↔
      outBuffer.readAble = 0 ∨
        ∀ call, (∀ earlier < call, Partial outBuffer.readAble (writes earlier)) →
          writes call ≠ .failed) :=
  ⟨readEndsOnError_iff (inbound_spare positive fits reachable) readStream,
    writeEndsOnError_iff writeStream⟩

/-- An out-buffer with three bytes to send. -/
def threeBytes : TcpBuffer where
  readIndex := 0
  writeIndex := 3
  buffer := [7, 8, 9]

/-- So many reads bring data, and all later ones the same result. -/
def readsThen (data : List Bytes) (last : ReadResult) (call : Nat) : ReadResult :=
  (data.map ReadResult.data).getD call last

def writesThen (counts : List Nat) (last : WriteResult) (call : Nat) : WriteResult :=
  (counts.map WriteResult.count).getD call last

section Then

variable {Item : Type u} {Result : Type v} {wrap : Item → Result} {items : List Item}
  {last result : Result} {call : Nat}

theorem getD_map_of_le (behind : items.length ≤ call) :
    (items.map wrap).getD call last = last := by
  rw [List.getD_eq_getElem?_getD, List.getElem?_map, List.getElem?_eq_none behind]
  rfl

theorem exists_getD_map (inside : call < items.length) :
    ∃ item ∈ items, (items.map wrap).getD call last = wrap item := by
  refine ⟨items[call], List.getElem_mem inside, ?_⟩
  rw [List.getD_eq_getElem?_getD, List.getElem?_map, List.getElem?_eq_getElem inside]
  rfl

/-- A result that no item has is the last one. -/
theorem of_getD_map_of_ne (other : ∀ item, wrap item ≠ result)
    (equal : (items.map wrap).getD call last = result) : items.length ≤ call ∧ last = result := by
  by_cases inside : call < items.length
  · rcases exists_getD_map inside with ⟨item, _, same⟩
    exact absurd (same.symm.trans equal) (other item)
  · have behind : items.length ≤ call := Nat.le_of_not_lt inside
    exact ⟨behind, (getD_map_of_le behind).symm.trans equal⟩

/-- A result that is not the last one is that of an item. -/
theorem of_getD_map_eq (injective : ∀ item other, wrap item = wrap other → item = other)
    (other : ∀ item, last ≠ wrap item) {item : Item}
    (equal : (items.map wrap).getD call last = wrap item) :
    item ∈ items ∧ call < items.length := by
  by_cases inside : call < items.length
  · rcases exists_getD_map inside with ⟨found, member, same⟩
    rw [← injective found item (same.symm.trans equal)]
    exact ⟨member, inside⟩
  · have behind : items.length ≤ call := Nat.le_of_not_lt inside
    exact absurd ((getD_map_of_le behind).symm.trans equal) (other item)

end Then

theorem readStream_then {room : Nat} {data : List Bytes} {last : ReadResult}
    (bounded : ∀ bytes ∈ data, 0 < bytes.length ∧ bytes.length ≤ room)
    (noData : ∀ bytes, last ≠ .data bytes) : ReadStream room (readsThen data last) where
  bounded call bytes equal :=
    bounded bytes (of_getD_map_eq (fun _ _ => ReadResult.data.inj) noData equal).1
  persists call failed later atLeast := by
    have ended := of_getD_map_of_ne (fun _ => ReadResult.noConfusion) failed
    exact (getD_map_of_le (ended.1.trans atLeast)).trans ended.2
  finite := by
    refine ⟨data.length, fun call atLeast bytes equal => ?_⟩
    have early := (of_getD_map_eq (fun _ _ => ReadResult.data.inj) noData equal).2
    omega

theorem writeStream_then {size : Nat} {counts : List Nat} {last : WriteResult}
    (bounded : ∀ count ∈ counts, 0 < count ∧ count ≤ size)
    (noCount : ∀ count, last ≠ .count count) : WriteStream size (writesThen counts last) where
  bounded call count equal :=
    bounded count (of_getD_map_eq (fun _ _ => WriteResult.count.inj) noCount equal).1
  persists call failed later atLeast := by
    have ended := of_getD_map_of_ne (fun _ => WriteResult.noConfusion) failed
    exact (getD_map_of_le (ended.1.trans atLeast)).trans ended.2
  finite := by
    refine ⟨counts.length, fun call atLeast count equal => ?_⟩
    have early := (of_getD_map_eq (fun _ _ => WriteResult.count.inj) noCount equal).2
    omega

/-- Two reads fill the room and three bytes go out one by one before the socket has
nothing left, for now, to read or to take. -/
theorem socketLoops_end_again :
    ReadEndsOnError (TcpBuffer.new 128)
        (readsThen [List.replicate 128 7, List.replicate 128 8] .again) ∧
      WriteEndsOnError threeBytes (writesThen [1, 1] .again) := by
  have reads : ReadStream (TcpBuffer.new 128).writeAble
      (readsThen [List.replicate 128 7, List.replicate 128 8] .again) :=
    readStream_then (by simp [TcpBuffer.new, TcpBuffer.writeAble]) (fun _ => ReadResult.noConfusion)
  have writes : WriteStream threeBytes.readAble (writesThen [1, 1] .again) :=
    writeStream_then (by decide) (fun _ => WriteResult.noConfusion)
  have ends := socketLoops_end_iff (show 0 < 128 by decide) (by decide)
    ⟨TcpBuffer.new 128, [], rfl, .nil _⟩ reads writes
  constructor
  · apply ends.1.mpr
    intro call _ failed
    cases (of_getD_map_of_ne (fun _ => ReadResult.noConfusion) failed).2
  · apply ends.2.mpr
    right
    intro call _ failed
    cases (of_getD_map_of_ne (fun _ => WriteResult.noConfusion) failed).2

/-- A connection that the peer has reset: neither loop ever ends. -/
theorem socketLoops_spin :
    ReadStream (TcpBuffer.new 128).writeAble (fun _ => .failed) ∧
      ¬ReadEndsOnError (TcpBuffer.new 128) (fun _ => .failed) ∧
      WriteStream threeBytes.readAble (fun _ => .failed) ∧
      ¬WriteEndsOnError threeBytes (fun _ => .failed) := by
  have reads : ReadStream (TcpBuffer.new 128).writeAble (fun _ => .failed) :=
    @readStream_then _ [] .failed (by decide) (fun _ => ReadResult.noConfusion)
  have writes : WriteStream threeBytes.readAble (fun _ => .failed) :=
    @writeStream_then _ [] .failed (by decide) (fun _ => WriteResult.noConfusion)
  refine ⟨reads, ?_, writes, ?_⟩
  · intro ends
    have spare : (TcpBuffer.new 128).Spare := TcpBuffer.new_spare (show 0 < 128 by decide)
      (by decide)
    have condition := (readEndsOnError_iff spare reads).mp ends
    exact condition 0 (fun _ inside => absurd inside (Nat.not_lt_zero _)) rfl
  · intro ends
    rcases (writeEndsOnError_iff writes).mp ends with empty | condition
    · exact absurd empty (by decide)
    · exact condition 0 (fun _ inside => absurd inside (Nat.not_lt_zero _)) rfl

end NetRpc.TcpConnection
