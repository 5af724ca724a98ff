import Mathlib.Data.List.Nodup
import Mathlib.Data.List.Perm.Subperm
import Mathlib.Data.List.Range
import Mathlib.Data.Set.Function
import Mathlib.Logic.Function.Basic

/-! # Rounds of a sequence

Items of a fixed list are dealt out one after another. A round is over when as
many have been dealt as the list has. The numbers of times that the items are
dealt stay level as long as no item comes twice in one round.
-/

namespace NetRpc.Rounds

variable {Item : Type u}

/-- What the round under way has dealt, after one more item. -/
def deal (items current : List Item) (item : Item) : List Item :=
  if current.length + 1 = items.length then [] else current ++ [item]

/-- What the round under way at the end of a sequence has dealt. -/
def current (items sequence : List Item) : List Item :=
  sequence.foldl (deal items) []

theorem current_append (items sequence : List Item) (item : Item) :
    current items (sequence ++ [item]) = deal items (current items sequence) item := by
  rw [current, List.foldl_append, List.foldl_cons, List.foldl_nil, current]

variable [DecidableEq Item]

/-- The items occur equally often in the sequence, up to one. -/
def Even (items sequence : List Item) : Prop :=
  ∀ item ∈ items, ∀ other ∈ items, sequence.count item ≤ sequence.count other + 1

/-- Each of `rounds` rounds has dealt every item, and the one under way none twice. -/
structure Dealt (items sequence : List Item) (rounds : Nat) : Prop where
  counts : ∀ item ∈ items, sequence.count item = rounds + (current items sequence).count item
  distinct : (current items sequence).Nodup
  within : current items sequence ⊆ items
  unfinished : (current items sequence).length < items.length

variable {items sequence : List Item}

theorem Dealt.nil (nonempty : items ≠ []) : Dealt items [] 0 where
  counts := by
    intro item _
    rw [Nat.zero_add]
    rfl
  distinct := List.nodup_nil
  within := List.nil_subset items
  unfinished := List.length_pos_iff.mpr nonempty

theorem Dealt.even {rounds : Nat} (dealt : Dealt items sequence rounds) :
    Even items sequence := by
  intro item member other otherMember
  have atMostOnce := List.nodup_iff_count_le_one.mp dealt.distinct item
  rw [dealt.counts item member, dealt.counts other otherMember]
  omega

/-- A round of as many distinct items as there are has dealt each of them. -/
theorem count_full (distinctItems : items.Nodup) {round : List Item} (distinct : round.Nodup)
    (within : round ⊆ items) (full : round.length = items.length) {item : Item}
    (member : item ∈ items) : round.count item = 1 := by
  have same : round.Perm items :=
    (distinct.subperm within).perm_of_length_le (Nat.le_of_eq full.symm)
  rw [same.count_eq]
  exact List.count_eq_one_of_mem distinctItems member

theorem Dealt.append {rounds : Nat} {item : Item} (distinctItems : items.Nodup)
    (dealt : Dealt items sequence rounds) (member : item ∈ items)
    (fresh : item ∉ current items sequence) :
    ∃ rounds, Dealt items (sequence ++ [item]) rounds := by
  have unfinished := dealt.unfinished
  have distinct : (current items sequence ++ [item]).Nodup := by
    rw [← List.concat_eq_append]
    exact List.Nodup.concat fresh dealt.distinct
  have within : current items sequence ++ [item] ⊆ items :=
    List.append_subset.mpr ⟨dealt.within, List.cons_subset.mpr ⟨member, List.nil_subset items⟩⟩
  by_cases full : (current items sequence).length + 1 = items.length
  · have next : current items (sequence ++ [item]) = [] := by
      rw [current_append, deal, if_pos full]
    refine ⟨rounds + 1, ?_, ?_, ?_, ?_⟩
    · intro other otherMember
      have once : (current items sequence ++ [item]).count other = 1 :=
        count_full distinctItems distinct within (by simpa using full) otherMember
      rw [List.count_append] at once
      rw [next, List.count_append, dealt.counts other otherMember, List.count_nil]
      omega
    · rw [next]
      exact List.nodup_nil
    · rw [next]
      exact List.nil_subset items
    · rw [next, List.length_nil]
      omega
  · have next : current items (sequence ++ [item]) = current items sequence ++ [item] := by
      rw [current_append, deal, if_neg full]
    refine ⟨rounds, ?_, ?_, ?_, ?_⟩
    · intro other otherMember
      rw [next, List.count_append, List.count_append, dealt.counts other otherMember,
        Nat.add_assoc]
    · rw [next]
      exact distinct
    · rw [next]
      exact within
    · rw [next, List.length_append, List.length_singleton]
      omega

/-- Some item is still to come in the round under way. -/
theorem Dealt.exists_missing {rounds : Nat} (distinctItems : items.Nodup)
    (dealt : Dealt items sequence rounds) :
    ∃ other ∈ items, other ∉ current items sequence := by
  have unfinished := dealt.unfinished
  by_contra none
  push Not at none
  have covered : items.length ≤ (current items sequence).length :=
    (distinctItems.subperm none).length_le
  omega

/-- One more item leaves the numbers level exactly if its round has not dealt it yet. -/
theorem Dealt.even_append_iff {rounds : Nat} {item : Item} (distinctItems : items.Nodup)
    (dealt : Dealt items sequence rounds) (member : item ∈ items) :
    Even items (sequence ++ [item]) ↔ item ∉ current items sequence := by
  constructor
  · intro even again
    rcases dealt.exists_missing distinctItems with ⟨other, otherMember, missing⟩
    have different : item ≠ other := by
      rintro rfl
      exact missing again
    have level := even item member other otherMember
    have once : 0 < (current items sequence).count item := List.count_pos_iff.mpr again
    have notOnce : (current items sequence).count other = 0 := List.count_eq_zero.mpr missing
    rw [List.count_append, List.count_append, dealt.counts item member,
      dealt.counts other otherMember, List.count_singleton_self,
      List.count_singleton, if_neg (by simpa using different)] at level
    omega
  · intro fresh
    rcases dealt.append distinctItems member fresh with ⟨_, after⟩
    exact after.even

/-- Other names for the items change nothing, as long as they tell them apart. -/
theorem even_map_iff {Other : Type v} [DecidableEq Other] {name : Item → Other}
    (injective : Set.InjOn name {item | item ∈ items}) (within : sequence ⊆ items) :
    Even (items.map name) (sequence.map name) ↔ Even items sequence := by
  have count : ∀ item ∈ items, (sequence.map name).count (name item) = sequence.count item := by
    intro item member
    rw [List.count_eq_countP, List.countP_map, List.count_eq_countP]
    apply List.countP_congr
    intro other dealt
    simpa using injective.eq_iff (within dealt) member
  have same : ∀ item ∈ items, ∀ other ∈ items,
      ((sequence.map name).count (name item) ≤ (sequence.map name).count (name other) + 1 ↔
        sequence.count item ≤ sequence.count other + 1) := by
    intro item member other otherMember
    rw [count item member, count other otherMember]
  simp only [Even, List.forall_mem_map]
  exact forall₂_congr fun item member => forall₂_congr fun other otherMember =>
    same item member other otherMember

/-! ## Rounds by number

The round that an item belongs to is told by its place in the sequence. So whether
a round has an item twice can be said without following the rounds.
-/

section Numbers

/-- No item comes twice in one round of `size`. -/
def OncePerRound (size : Nat) (sequence : List Item) : Prop :=
  ∀ second < sequence.length, ∀ first < second,
    first / size = second / size → sequence[first]? ≠ sequence[second]?

omit [DecidableEq Item]

theorem oncePerRound_nil (size : Nat) : OncePerRound size ([] : List Item) := by
  intro second inside
  exact absurd inside (Nat.not_lt_zero second)

/-- The round under way is what is left behind the last full one. -/
theorem current_eq_drop (nonempty : items ≠ []) (sequence : List Item) :
    current items sequence = sequence.drop (sequence.length / items.length * items.length) := by
  have positive := List.length_pos_iff.mpr nonempty
  induction sequence using List.reverseRecOn with
  | nil => rw [List.drop_nil, current, List.foldl_nil]
  | append_singleton sequence item induction =>
      have least := Nat.div_mul_le_self sequence.length items.length
      have most : sequence.length <
          sequence.length / items.length * items.length + items.length :=
        Nat.lt_div_mul_add positive
      have length : (sequence ++ [item]).length = sequence.length + 1 := by simp
      rw [current_append, deal, induction, List.length_drop, length]
      by_cases last : sequence.length - sequence.length / items.length * items.length + 1 =
          items.length
      · have next : (sequence.length + 1) / items.length =
            sequence.length / items.length + 1 := by
          rw [Nat.div_eq_iff positive, Nat.succ_mul]
          omega
        rw [if_pos last, next, Nat.succ_mul, List.drop_eq_nil_of_le]
        omega
      · have same : (sequence.length + 1) / items.length = sequence.length / items.length := by
          rw [Nat.div_eq_iff positive]
          omega
        rw [if_neg last, same, List.drop_append_of_le_length least]

theorem oncePerRound_append_iff (nonempty : items ≠ []) (sequence : List Item) (item : Item) :
    OncePerRound items.length (sequence ++ [item]) ↔
      OncePerRound items.length sequence ∧ item ∉ current items sequence := by
  have positive := List.length_pos_iff.mpr nonempty
  have most : sequence.length < sequence.length / items.length * items.length + items.length :=
    Nat.lt_div_mul_add positive
  have before : ∀ place < sequence.length, (sequence ++ [item])[place]? = sequence[place]? :=
    fun _ inside => List.getElem?_append_left inside
  have last : (sequence ++ [item])[sequence.length]? = some item := List.getElem?_concat_length
  have length : (sequence ++ [item]).length = sequence.length + 1 := by simp
  rw [current_eq_drop nonempty]
  constructor
  · intro once
    constructor
    · intro second inside first earlier sameRound
      rw [← before first (by omega), ← before second inside]
      exact once second (by omega) first earlier sameRound
    · intro member
      rcases List.mem_iff_getElem?.mp member with ⟨place, there⟩
      rw [List.getElem?_drop] at there
      have inside := (List.getElem?_eq_some_iff.mp there).1
      refine once sequence.length (by omega) _ inside ?_ ?_
      · rw [Nat.div_eq_iff positive]
        omega
      · rw [before _ inside, there, last]
  · intro holds second inside first earlier sameRound
    rcases holds with ⟨once, fresh⟩
    by_cases old : second < sequence.length
    · rw [before first (by omega), before second old]
      exact once second old first earlier sameRound
    · have isLast : second = sequence.length := by omega
      subst isLast
      rw [before first earlier, last]
      intro again
      apply fresh
      have least := Nat.div_mul_le_self first items.length
      rw [sameRound] at least
      apply List.mem_iff_getElem?.mpr
      exact ⟨first - sequence.length / items.length * items.length, by
        rw [List.getElem?_drop, Nat.add_sub_cancel' least, again]⟩

end Numbers

theorem OncePerRound.exists_dealt (nonempty : items ≠ []) (distinctItems : items.Nodup)
    (once : OncePerRound items.length sequence) (within : sequence ⊆ items) :
    ∃ rounds, Dealt items sequence rounds := by
  induction sequence using List.reverseRecOn with
  | nil => exact ⟨0, .nil nonempty⟩
  | append_singleton sequence item induction =>
      rw [oncePerRound_append_iff nonempty] at once
      rw [List.append_subset, List.cons_subset] at within
      rcases induction once.1 within.1 with ⟨_, dealt⟩
      exact dealt.append distinctItems within.2.1 once.2

/-- The numbers stay level exactly if no item comes twice in one round. -/
theorem even_prefixes_iff (nonempty : items ≠ []) (distinctItems : items.Nodup)
    (within : sequence ⊆ items) :
    (∀ earlier, earlier <+: sequence → Even items earlier) ↔
      OncePerRound items.length sequence := by
  induction sequence using List.reverseRecOn with
  | nil =>
      refine iff_of_true ?_ (oncePerRound_nil _)
      intro earlier isPrefix
      rw [List.prefix_nil.mp isPrefix]
      exact (Dealt.nil nonempty).even
  | append_singleton sequence item induction =>
      rw [List.append_subset, List.cons_subset] at within
      have rest := induction within.1
      simp only [List.prefix_concat_iff, forall_eq_or_imp, rest]
      rw [oncePerRound_append_iff nonempty, and_comm]
      apply and_congr_right
      intro once
      rcases once.exists_dealt nonempty distinctItems within.1 with ⟨_, dealt⟩
      exact dealt.even_append_iff distinctItems within.2.1

/-! ## One cursor for several lists

The lists take turns. With each turn the cursor comes to a place of the list, which
is the front if it stands behind it, and moves on by one.
-/

section Rotation

variable {Kind : Type v} [DecidableEq Kind] (sizes : Kind → Nat)

/-- Where the cursor stands, and the places of each list that it has come to. -/
structure Rotation (Kind : Type v) where
  cursor : Nat := 0
  places : Kind → List Nat := fun _ => []

/-- The place that a cursor comes to in a list of `size`. -/
def place (size cursor : Nat) : Nat :=
  if cursor < size then cursor else 0

def Rotation.turn (rotation : Rotation Kind) (kind : Kind) : Rotation Kind where
  cursor := place (sizes kind) rotation.cursor + 1
  places := Function.update rotation.places kind
    (rotation.places kind ++ [place (sizes kind) rotation.cursor])

def rotate (turns : List Kind) : Rotation Kind :=
  turns.foldl (Rotation.turn sizes) {}

theorem place_lt {size : Nat} (positive : 0 < size) (cursor : Nat) : place size cursor < size := by
  rw [place]
  split
  case isTrue inside => exact inside
  case isFalse => exact positive

theorem rotate_append (turns : List Kind) (kind : Kind) :
    rotate sizes (turns ++ [kind]) = (rotate sizes turns).turn sizes kind := by
  rw [rotate, List.foldl_append, List.foldl_cons, List.foldl_nil, rotate]

theorem turn_places (rotation : Rotation Kind) (kind : Kind) :
    (rotation.turn sizes kind).places = Function.update rotation.places kind
      (rotation.places kind ++ [place (sizes kind) rotation.cursor]) := rfl

theorem places_within {kind : Kind} (positive : 0 < sizes kind) (turns : List Kind) :
    (rotate sizes turns).places kind ⊆ List.range (sizes kind) := by
  induction turns using List.reverseRecOn with
  | nil => exact List.nil_subset _
  | append_singleton turns turn induction =>
      rw [rotate_append, turn_places]
      by_cases own : kind = turn
      · subst own
        rw [Function.update_self, List.append_subset, List.cons_subset]
        exact ⟨induction, List.mem_range.mpr (place_lt positive _), List.nil_subset _⟩
      · rw [Function.update_of_ne own]
        exact induction

/-- The places come one by one as the turns do. -/
theorem forall_places_prefix_iff (kind : Kind) (turns : List Kind) (property : List Nat → Prop) :
    (∀ earlier, earlier <+: turns → property ((rotate sizes earlier).places kind)) ↔
      ∀ places, places <+: (rotate sizes turns).places kind → property places := by
  induction turns using List.reverseRecOn with
  | nil =>
      have none : (rotate sizes ([] : List Kind)).places kind = [] := rfl
      simp only [List.prefix_nil, forall_eq, none]
  | append_singleton turns turn induction =>
      simp only [List.prefix_concat_iff, forall_eq_or_imp, induction, rotate_append,
        turn_places]
      by_cases own : kind = turn
      · subst own
        simp only [Function.update_self, List.prefix_concat_iff, forall_eq_or_imp]
      · rw [Function.update_of_ne own]
        exact and_iff_right_of_imp fun all => all _ (List.prefix_refl _)

/-- All lists have been served evenly all along exactly if the cursor has never come
to a place twice in one round of its list. -/
theorem even_places_iff (positive : ∀ kind, 0 < sizes kind) (turns : List Kind) :
    (∀ earlier, earlier <+: turns → ∀ kind,
        Even (List.range (sizes kind)) ((rotate sizes earlier).places kind)) ↔
      ∀ kind, OncePerRound (sizes kind) ((rotate sizes turns).places kind) := by
  have each : ∀ kind, (∀ earlier, earlier <+: turns →
        Even (List.range (sizes kind)) ((rotate sizes earlier).places kind)) ↔
      OncePerRound (sizes kind) ((rotate sizes turns).places kind) := by
    intro kind
    have nonempty : List.range (sizes kind) ≠ [] := by
      rw [Ne, List.range_eq_nil]
      exact Nat.ne_of_gt (positive kind)
    have level := even_prefixes_iff nonempty List.nodup_range
      (places_within sizes (positive kind) turns)
    rw [List.length_range] at level
    rw [← level]
    exact forall_places_prefix_iff sizes kind turns (Even (List.range (sizes kind)))
  constructor
  · intro even kind
    exact (each kind).mp fun earlier isPrefix => even earlier isPrefix kind
  · intro once earlier isPrefix kind
    exact (each kind).mpr (once kind) earlier isPrefix

end Rotation

end NetRpc.Rounds
