import NetRpc.Common.CString
import NetRpc.Foundation.Transition
import Mathlib.Data.List.Basic

/-! # Message ids

Every thread draws twenty random digits and then counts up from there. When the
digits have come to all nines it draws anew, which it notices by comparing them
with a text of nines. Each draw makes that text longer, so only the first draw
is followed by another; after that the search for a digit to count up runs past
the front of the id.
-/

namespace NetRpc.MsgIDUtil

def msgIdLength : Nat := 20

/-- The thread-local texts. -/
structure MsgIdThread where
  msgIdNo : Bytes := []
  maxMsgIdNo : Bytes := []
deriving DecidableEq

/-- The loop that goes down from position `i` over the nines. Its test `i >= 0` on an
unsigned number never ends it. The result is `none` where it reads in front of the text. -/
def skipNines (text : Bytes) : Nat → Option Nat
  | 0 => if text[0]? = some 0x39 then none else some 0
  | i + 1 => if text[i + 1]? = some 0x39 then skipNines text i else some (i + 1)

/-- Count up the digit at position `i`, and set those behind it to zero. -/
def countUp (text : Bytes) (i : Nat) : Bytes :=
  (List.range' (i + 1) (text.length - (i + 1))).foldl (fun text j => text.set j 0x30)
    (text.modify i (· + 1))

/-- Whether the next id is drawn. -/
def MsgIdThread.Draws (thread : MsgIdThread) : Prop :=
  thread.msgIdNo = [] ∨ thread.msgIdNo = thread.maxMsgIdNo
deriving Decidable

/-- The id with the texts behind the call, where `random` is what `read` delivers.
The result is `none` where a character in front of the text is read. -/
def genMsgId (thread : MsgIdThread) (random : Bytes) : Option (Bytes × MsgIdThread) :=
  if thread.Draws then
    if random.length ≠ msgIdLength then
      some ([], thread)
    else
      let res := random.map fun byte => byte % 10 + 0x30
      some (res,
        { msgIdNo := res
          maxMsgIdNo := thread.maxMsgIdNo ++ List.replicate msgIdLength 0x39 })
  else
    (skipNines thread.msgIdNo (thread.msgIdNo.length - 1)).map fun i =>
      let msgIdNo := countUp thread.msgIdNo i
      (msgIdNo, { thread with msgIdNo })

example : genMsgId ⟨ascii "1299", ascii "9999"⟩ [] =
    some (ascii "1300", ⟨ascii "1300", ascii "9999"⟩) := by decide +kernel

/-! ## Counting up -/

theorem skipNines_eq_none_iff {text : Bytes} {i : Nat} :
    skipNines text i = none ↔ ∀ k ≤ i, text[k]? = some 0x39 := by
  induction i with
  | zero =>
      rw [skipNines]
      simp
  | succ i induction =>
      rw [skipNines]
      split
      case isTrue nine =>
        rw [induction]
        constructor
        · intro below k inside
          rcases Nat.le_succ_iff.mp inside with before | rfl
          · exact below k before
          · exact nine
        · intro all k inside
          exact all k (Nat.le_succ_of_le inside)
      case isFalse other =>
        simp only [reduceCtorEq, false_iff]
        intro all
        exact other (all (i + 1) (Nat.le_refl _))

theorem of_skipNines_eq_some {text : Bytes} {i found : Nat}
    (skipped : skipNines text i = some found) :
    found ≤ i ∧ text[found]? ≠ some 0x39 ∧ ∀ k, found < k → k ≤ i → text[k]? = some 0x39 := by
  induction i with
  | zero =>
      rw [skipNines, Option.ite_none_left_eq_some] at skipped
      rcases skipped with ⟨other, same⟩
      cases same
      exact ⟨Nat.le_refl 0, other, fun k above below => by omega⟩
  | succ i induction =>
      rw [skipNines] at skipped
      split at skipped
      case isTrue nine =>
        rcases induction skipped with ⟨inside, other, nines⟩
        refine ⟨Nat.le_succ_of_le inside, other, ?_⟩
        intro k above below
        rcases Nat.le_succ_iff.mp below with before | rfl
        · exact nines k above before
        · exact nine
      case isFalse other =>
        cases skipped
        exact ⟨Nat.le_refl _, other, fun k above below => by omega⟩

theorem skipNines_replicate (length : Nat) (i : Nat) (inside : i < length) :
    skipNines (List.replicate length 0x39) i = none := by
  rw [skipNines_eq_none_iff]
  intro k below
  rw [List.getElem?_replicate, if_pos (by omega)]

/-- From the end, the search stops in front of nothing but nines. -/
theorem eq_of_skipNines {text : Bytes} {i : Nat}
    (skipped : skipNines text (text.length - 1) = some i) (nonempty : text ≠ []) :
    ∃ front digit, front.length = i ∧ digit ≠ 0x39 ∧
      text = front ++ digit :: List.replicate (text.length - (i + 1)) 0x39 := by
  have positive := List.length_pos_iff.mpr nonempty
  rcases of_skipNines_eq_some skipped with ⟨inside, other, nines⟩
  have within : i < text.length := by omega
  refine ⟨text.take i, text[i], ?_, ?_, ?_⟩
  · rw [List.length_take]
    omega
  · intro nine
    rw [List.getElem?_eq_getElem within, nine] at other
    exact other rfl
  · have behind : text.drop (i + 1) = List.replicate (text.length - (i + 1)) 0x39 := by
      rw [List.eq_replicate_iff, List.length_drop]
      refine ⟨rfl, ?_⟩
      intro byte member
      rcases List.mem_iff_getElem?.mp member with ⟨k, found⟩
      rw [List.getElem?_drop] at found
      have bounded : i + 1 + k < text.length := (List.getElem?_eq_some_iff.mp found).1
      rw [nines (i + 1 + k) (by omega) (by omega)] at found
      exact (Option.some.inj found).symm
    rw [← behind, ← List.drop_eq_getElem_cons within, List.take_append_drop]

theorem foldl_set_zeros (front behind : Bytes) :
    (List.range' front.length behind.length).foldl (fun text j => text.set j 0x30)
        (front ++ behind) =
      front ++ List.replicate behind.length 0x30 := by
  induction behind generalizing front with
  | nil => simp
  | cons byte behind induction =>
      have next := induction (front ++ [0x30])
      rw [List.length_append, List.length_singleton, List.append_assoc,
        List.append_assoc] at next
      rw [List.length_cons, List.range'_succ, List.foldl_cons, List.set_append_right _ _ (by omega),
        Nat.sub_self, List.set_cons_zero]
      exact next

theorem countUp_append (front : Bytes) (digit : Byte) (behind : Bytes) :
    countUp (front ++ digit :: behind) front.length =
      front ++ (digit + 1) :: List.replicate behind.length 0x30 := by
  have zeros := foldl_set_zeros (front ++ [digit + 1]) behind
  rw [List.length_append, List.length_singleton, List.append_assoc, List.append_assoc] at zeros
  have modified : (front ++ digit :: behind).modify front.length (· + 1) =
      front ++ (digit + 1) :: behind := by
    rw [List.modify_eq_take_drop, List.take_left, List.drop_left, List.modifyHead_cons]
  have rest : (front ++ digit :: behind).length - (front.length + 1) = behind.length := by
    rw [List.length_append, List.length_cons]
    omega
  rw [countUp, modified, rest]
  exact zeros

/-! ## Decimal successors -/

/-- Exactly twenty decimal digits. -/
structure IsMsgId (id : Bytes) : Prop where
  length : id.length = msgIdLength
  digits : ∀ byte ∈ id, isDigit byte = true

abbrev nines : Bytes := List.replicate msgIdLength 0x39

theorem isDigit_iff (byte : Byte) :
    isDigit byte = true ↔ 48 ≤ byte.toNat ∧ byte.toNat ≤ 57 := by
  rw [isDigit, Bool.and_eq_true, decide_eq_true_eq, decide_eq_true_eq, UInt8.le_iff_toNat_le,
    UInt8.le_iff_toNat_le]
  rfl

theorem isDigit_random (byte : Byte) : isDigit (byte % 10 + 0x30) = true := by
  have value : (byte % 10 + 0x30 : Byte).toNat = byte.toNat % 10 + 48 := by
    have last : byte.toNat % 10 < 10 := Nat.mod_lt _ (by decide)
    rw [UInt8.toNat_add, UInt8.toNat_mod]
    change (byte.toNat % 10 + 48) % 2 ^ 8 = _
    omega
  rw [isDigit_iff, value]
  omega

/-- A digit other than the last one is followed by the next. -/
theorem toNat_next_digit {digit : Byte} (isDigit : isDigit digit = true) (other : digit ≠ 0x39) :
    (digit + 1).toNat = digit.toNat + 1 ∧ digit.toNat + 1 ≤ 57 := by
  have bounds := (isDigit_iff digit).mp isDigit
  have below : digit.toNat ≠ 57 := fun same => other (UInt8.toNat_inj.mp same)
  have sum : (digit + 1).toNat = (digit.toNat + 1) % 2 ^ 8 := UInt8.toNat_add digit 1
  omega

theorem digits_of_all {text : Bytes} (all : ∀ byte ∈ text, isDigit byte = true) :
    digits text = text.foldl (fun value byte => 10 * value + (byte.toNat - 48)) 0 := by
  rw [digits, List.takeWhile_eq_self_iff.mpr all]

/-- The carry runs through the nines and leaves zeros. -/
theorem foldl_zeros (length value : Nat) :
    (List.replicate length (0x30 : Byte)).foldl
        (fun value byte => 10 * value + (byte.toNat - 48)) (value + 1) =
      (List.replicate length (0x39 : Byte)).foldl
        (fun value byte => 10 * value + (byte.toNat - 48)) value + 1 := by
  induction length generalizing value with
  | zero => rfl
  | succ length induction =>
      have carried := induction (10 * value + 9)
      rw [List.replicate_succ, List.replicate_succ, List.foldl_cons, List.foldl_cons]
      exact carried

theorem digits_carry {front : Bytes} {digit : Byte} {length : Nat}
    (all : ∀ byte ∈ front ++ digit :: List.replicate length 0x39, isDigit byte = true)
    (other : digit ≠ 0x39) :
    (∀ byte ∈ front ++ (digit + 1) :: List.replicate length 0x30, isDigit byte = true) ∧
      digits (front ++ (digit + 1) :: List.replicate length 0x30) =
        digits (front ++ digit :: List.replicate length 0x39) + 1 := by
  have isDigit := all digit (List.mem_append_right front List.mem_cons_self)
  rcases toNat_next_digit isDigit other with ⟨next, bounded⟩
  have lower := ((isDigit_iff digit).mp isDigit).1
  have allNext :
      ∀ byte ∈ front ++ (digit + 1) :: List.replicate length 0x30, NetRpc.isDigit byte = true := by
    intro byte member
    rcases List.mem_append.mp member with before | behind
    · exact all byte (List.mem_append_left _ before)
    · rcases List.mem_cons.mp behind with rfl | zero
      · rw [isDigit_iff, next]
        omega
      · rw [List.eq_of_mem_replicate zero]
        rfl
  refine ⟨allNext, ?_⟩
  rw [digits_of_all allNext, digits_of_all all, List.foldl_append, List.foldl_append,
    List.foldl_cons, List.foldl_cons, ← foldl_zeros, next]
  congr 1
  omega

/-- An id that is not all nines is followed by its decimal successor. -/
theorem countUp_isMsgId {id : Bytes} (isMsgId : IsMsgId id) (other : id ≠ nines) :
    ∃ i, skipNines id (id.length - 1) = some i ∧ IsMsgId (countUp id i) ∧
      digits (countUp id i) = digits id + 1 := by
  have length := isMsgId.length
  have nonempty : id ≠ [] := by
    rintro rfl
    cases length
  cases found : skipNines id (id.length - 1) with
  | none =>
      rw [skipNines_eq_none_iff] at found
      refine absurd (List.eq_replicate_iff.mpr ⟨length, ?_⟩) other
      intro byte member
      rcases List.mem_iff_getElem?.mp member with ⟨k, there⟩
      have bounded : k < id.length := (List.getElem?_eq_some_iff.mp there).1
      rw [found k (by omega)] at there
      exact (Option.some.inj there).symm
  | some i =>
      rcases eq_of_skipNines found nonempty with ⟨front, digit, rfl, differs, shape⟩
      have all := isMsgId.digits
      rw [shape] at all
      rcases digits_carry all differs with ⟨allNext, value⟩
      have counted := countUp_append front digit
        (List.replicate (id.length - (front.length + 1)) 0x39)
      rw [← shape, List.length_replicate] at counted
      refine ⟨front.length, rfl, ⟨?_, ?_⟩, ?_⟩
      · rw [counted, ← length]
        have whole := congrArg List.length shape
        simpa using whole.symm
      · rw [counted]
        exact allNext
      · rw [counted, value, ← shape]

/-! ## The ids of one thread -/

/-- What a complete read delivers. -/
abbrev Random := { random : Bytes // random.length = msgIdLength }

/-- A thread with the ids it has had, and whether it has read outside its text. -/
structure Generator where
  thread : MsgIdThread := {}
  ids : List Bytes := []
  readsOutside : Bool := false

def Generator.call (generator : Generator) (random : Random) : Generator :=
  match genMsgId generator.thread random.val with
  | some (id, thread) => { generator with thread, ids := generator.ids ++ [id] }
  | none => { generator with readsOutside := true }

def system : Transition.System Generator Random where
  Initial generator := generator = {}
  Step current random next := current.call random = next

/-- What one call owes: an id of twenty digits, drawn at first and after all
nines, and otherwise the successor of the last one. -/
structure Succeeds (current next : Generator) : Prop where
  inRange : next.readsOutside = false
  returned : ∃ id, next.ids = current.ids ++ [id] ∧ IsMsgId id ∧
    (¬current.thread.Draws → ∃ previous, current.ids.getLast? = some previous ∧
      digits id = digits previous + 1)
  draws_iff : current.thread.Draws ↔ current.ids = [] ∨ current.ids.getLast? = some nines

/-- If the id is all nines, then the text of nines is still as long as the id. -/
def Generator.Recognises (generator : Generator) : Prop :=
  generator.thread.msgIdNo = nines → generator.thread.maxMsgIdNo = nines

/-- The id is the last one returned, and the text that it is compared with has only nines. -/
structure Generator.Counting (generator : Generator) : Prop where
  inRange : generator.readsOutside = false
  fresh_or : generator.ids = [] ∧ generator.thread = {} ∨
    generator.ids.getLast? = some generator.thread.msgIdNo ∧ IsMsgId generator.thread.msgIdNo
  maxNines : ∃ length, generator.thread.maxMsgIdNo = List.replicate length 0x39

theorem genMsgId_of_draws {thread : MsgIdThread} (draws : thread.Draws) (random : Random) :
    ∃ id, IsMsgId id ∧ genMsgId thread random.val = some (id,
      { msgIdNo := id, maxMsgIdNo := thread.maxMsgIdNo ++ nines }) := by
  refine ⟨random.val.map fun byte => byte % 10 + 0x30, ⟨?_, ?_⟩, ?_⟩
  · rw [List.length_map]
    exact random.property
  · intro byte member
    rcases List.mem_map.mp member with ⟨drawn, _, rfl⟩
    exact isDigit_random drawn
  · rw [genMsgId, if_pos draws, if_neg (not_not_intro random.property)]

theorem Generator.Counting.draws_iff {generator : Generator} (counting : generator.Counting)
    (recognises : generator.Recognises) :
    generator.thread.Draws ↔ generator.ids = [] ∨ generator.ids.getLast? = some nines := by
  rcases counting.fresh_or with ⟨none, initial⟩ | ⟨last, isMsgId⟩
  · rw [MsgIdThread.Draws, initial]
    exact ⟨fun _ => .inl none, fun _ => .inl rfl⟩
  · have nonempty : generator.ids ≠ [] := by
      intro none
      rw [none] at last
      cases last
    have lengthy : generator.thread.msgIdNo ≠ [] := by
      intro empty
      have length := isMsgId.length
      rw [empty] at length
      cases length
    rw [MsgIdThread.Draws, or_iff_right lengthy, or_iff_right nonempty, last, Option.some.injEq]
    constructor
    · intro same
      rcases counting.maxNines with ⟨length, allNines⟩
      have full := isMsgId.length
      rw [same, allNines, List.length_replicate] at full
      rw [same, allNines, full]
    · intro allNines
      rw [recognises allNines, allNines]

theorem Generator.Counting.call_of_draws {generator : Generator} (counting : generator.Counting)
    (recognises : generator.Recognises) (draws : generator.thread.Draws) (random : Random) :
    Succeeds generator (generator.call random) ∧ (generator.call random).Counting := by
  have draws_iff := counting.draws_iff recognises
  rcases genMsgId_of_draws draws random with ⟨id, isMsgId, generated⟩
  rw [Generator.call, generated]
  refine ⟨⟨counting.inRange, ?_, draws_iff⟩, ⟨counting.inRange, ?_, ?_⟩⟩
  · exact ⟨id, rfl, isMsgId, fun counts => absurd draws counts⟩
  · exact .inr ⟨List.getLast?_concat, isMsgId⟩
  · rcases counting.maxNines with ⟨length, allNines⟩
    refine ⟨length + msgIdLength, ?_⟩
    rw [allNines, List.replicate_append_replicate]

theorem Generator.Counting.call_of_counts {generator : Generator} (counting : generator.Counting)
    (recognises : generator.Recognises) (counts : ¬generator.thread.Draws) (random : Random) :
    Succeeds generator (generator.call random) ∧ (generator.call random).Counting := by
  have draws_iff := counting.draws_iff recognises
  have later : generator.ids ≠ [] ∧ generator.ids.getLast? ≠ some nines := by
    rw [draws_iff, not_or] at counts
    exact counts
  rcases counting.fresh_or with ⟨none, _⟩ | ⟨last, isMsgId⟩
  · exact absurd none later.1
  · have other : generator.thread.msgIdNo ≠ nines := by
      intro allNines
      rw [last, allNines] at later
      exact later.2 rfl
    rcases countUp_isMsgId isMsgId other with ⟨i, found, isNext, successor⟩
    rw [Generator.call, genMsgId, if_neg counts, found, Option.map_some]
    refine ⟨⟨counting.inRange, ?_, draws_iff⟩, ⟨counting.inRange, ?_, counting.maxNines⟩⟩
    · exact ⟨_, rfl, isNext, fun _ => ⟨_, last, successor⟩⟩
    · exact .inr ⟨List.getLast?_concat, isNext⟩

theorem Generator.Counting.call {generator : Generator} (counting : generator.Counting)
    (recognises : generator.Recognises) (random : Random) :
    Succeeds generator (generator.call random) ∧ (generator.call random).Counting := by
  by_cases draws : generator.thread.Draws
  · exact counting.call_of_draws recognises draws random
  · exact counting.call_of_counts recognises draws random

/-- Nines that are not recognised lead the search out of the text. -/
theorem call_of_not_recognises {generator : Generator} (missed : ¬generator.Recognises)
    (random : Random) : (generator.call random).readsOutside = true := by
  rw [Generator.Recognises, Classical.not_imp] at missed
  rcases missed with ⟨allNines, differs⟩
  have counts : ¬generator.thread.Draws := by
    rw [MsgIdThread.Draws, allNines, not_or]
    exact ⟨by decide, fun same => differs same.symm⟩
  have runsPast : skipNines nines (nines.length - 1) = none :=
    skipNines_replicate msgIdLength _ (by decide)
  rw [Generator.call, genMsgId, if_neg counts, allNines, runsPast]
  rfl

/-- Each id succeeds the one before exactly as long as no id of nines follows a second draw. -/
theorem succeeds_iff (randoms : List Random) :
    system.EachStep (fun current _ next => Succeeds current next) {} randoms ↔
      system.EachStep (fun current _ _ => current.Recognises) {} randoms := by
  have preserved : ∀ current random next, Generator.Counting current →
      system.Step current random next → current.Recognises → next.Counting := by
    rintro current random _ counting rfl recognises
    exact (counting.call recognises random).2
  have succeeds_iff_recognises : ∀ current random next, Generator.Counting current →
      system.Step current random next → (Succeeds current next ↔ current.Recognises) := by
    rintro current random _ counting rfl
    constructor
    · intro succeeds
      by_contra missed
      have outside := call_of_not_recognises missed random
      rw [succeeds.inRange] at outside
      cases outside
    · intro recognises
      exact (counting.call recognises random).1
  have start : ({} : Generator).Counting := ⟨rfl, .inl ⟨rfl, rfl⟩, ⟨0, rfl⟩⟩
  exact Transition.System.eachStep_iff preserved succeeds_iff_recognises start randoms

/-- Twenty bytes whose last digits are nines. -/
def drawsNines : Random :=
  ⟨List.replicate msgIdLength 9, List.length_replicate⟩

/-- Two draws of nines: the third call runs out of the text. -/
theorem not_succeeds_drawsNines :
    ¬system.EachStep (fun current _ next => Succeeds current next) {}
      [drawsNines, drawsNines, drawsNines] := by
  intro each
  have run : system.Run {} [drawsNines, drawsNines]
      ((Generator.call {} drawsNines).call drawsNines) :=
    .cons rfl (.cons rfl (.nil _))
  have inRange := (each _ _ _ _ (List.prefix_refl _) run rfl).inRange
  exact absurd inRange (by decide +kernel)

end NetRpc.MsgIDUtil
