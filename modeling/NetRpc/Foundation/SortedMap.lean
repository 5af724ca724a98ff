import Mathlib.Data.List.Nodup
import Mathlib.Order.Lattice

/-! # Ordered containers

A `std::map` or `std::multimap` is the list of its entries in ascending key
order. In a map a key stands once; in a multimap a new entry goes behind the
entries that have its key already.
-/

namespace NetRpc.SortedMap

variable {Key : Type u} {Value : Type v} [LinearOrder Key]

def Sorted (entries : List (Key × Value)) : Prop :=
  entries.Pairwise fun left right => left.1 ≤ right.1

/-- `multimap::emplace` -/
def emplace (key : Key) (value : Value) : List (Key × Value) → List (Key × Value)
  | [] => [(key, value)]
  | entry :: rest =>
      if key < entry.1 then (key, value) :: entry :: rest
      else entry :: emplace key value rest

/-- `map::operator[]` on the left of an assignment -/
def assign (key : Key) (value : Value) : List (Key × Value) → List (Key × Value)
  | [] => [(key, value)]
  | entry :: rest =>
      if key < entry.1 then (key, value) :: entry :: rest
      else if key = entry.1 then (key, value) :: rest
      else entry :: assign key value rest

/-- The entries from `lower_bound(key)` on. -/
def lowerBound (key : Key) (entries : List (Key × Value)) : List (Key × Value) :=
  entries.dropWhile fun entry => entry.1 < key

/-- The entries from `upper_bound(key)` on. -/
def upperBound (key : Key) (entries : List (Key × Value)) : List (Key × Value) :=
  entries.dropWhile fun entry => entry.1 ≤ key

/-- Erase the first entry with `value` between the bounds of `key`. -/
def eraseInRange [DecidableEq Value] (key : Key) (value : Value)
    (entries : List (Key × Value)) : List (Key × Value) :=
  let range := (lowerBound key entries).takeWhile fun entry => entry.1 ≤ key
  entries.takeWhile (fun entry => entry.1 < key) ++
    range.eraseP (fun entry => entry.2 = value) ++ upperBound key entries

/-- `entries` holds what `queue` holds, in ascending key order, and entries with
one key in the order they have in `queue`. -/
structure StableSort (queue entries : List (Key × Value)) : Prop where
  sorted : Sorted entries
  sameKey : ∀ key, (entries.filter fun entry => entry.1 = key) =
    queue.filter fun entry => entry.1 = key

variable {entries queue : List (Key × Value)}

theorem mem_emplace {key : Key} {value : Value} {entry : Key × Value} :
    entry ∈ emplace key value entries ↔ entry = (key, value) ∨ entry ∈ entries := by
  induction entries with
  | nil => simp [emplace]
  | cons first rest induction =>
      rw [emplace]
      split
      · exact List.mem_cons
      · rw [List.mem_cons, induction, List.mem_cons]
        exact or_left_comm

theorem assign_ne_nil (key : Key) (value : Value) (entries : List (Key × Value)) :
    assign key value entries ≠ [] := by
  cases entries with
  | nil => exact List.cons_ne_nil _ _
  | cons first rest =>
      rw [assign]
      split
      · exact List.cons_ne_nil _ _
      · split <;> exact List.cons_ne_nil _ _

theorem eq_or_mem_of_mem_assign {key : Key} {value : Value} {entry : Key × Value}
    (member : entry ∈ assign key value entries) :
    entry = (key, value) ∨ entry ∈ entries := by
  induction entries with
  | nil => exact .inl (List.mem_singleton.mp member)
  | cons first rest induction =>
      rw [assign] at member
      split at member
      · exact List.mem_cons.mp member
      · split at member
        · rcases List.mem_cons.mp member with same | later
          · exact .inl same
          · exact .inr (List.mem_cons_of_mem _ later)
        · rcases List.mem_cons.mp member with rfl | later
          · exact .inr List.mem_cons_self
          · rcases induction later with same | inside
            · exact .inl same
            · exact .inr (List.mem_cons_of_mem _ inside)

theorem Sorted.emplace {key : Key} {value : Value} (sorted : Sorted entries) :
    Sorted (emplace key value entries) := by
  induction entries with
  | nil => exact List.pairwise_singleton _ _
  | cons first rest induction =>
      have ordered := List.pairwise_cons.mp sorted
      rw [SortedMap.emplace]
      split
      case isTrue before =>
        apply List.pairwise_cons.mpr
        refine ⟨fun entry member => ?_, sorted⟩
        rcases List.mem_cons.mp member with rfl | member
        · exact le_of_lt before
        · exact le_trans (le_of_lt before) (ordered.1 entry member)
      case isFalse behind =>
        apply List.pairwise_cons.mpr
        refine ⟨fun entry member => ?_, induction ordered.2⟩
        rcases mem_emplace.mp member with rfl | member
        · exact le_of_not_gt behind
        · exact ordered.1 entry member

theorem emplace_perm (key : Key) (value : Value) (entries : List (Key × Value)) :
    (emplace key value entries).Perm ((key, value) :: entries) := by
  induction entries with
  | nil => exact .refl _
  | cons first rest induction =>
      rw [emplace]
      split
      · exact .refl _
      · exact (induction.cons first).trans (.swap _ _ _)

/-- On sorted entries, a condition that smaller keys inherit holds of a prefix. -/
theorem Sorted.takeWhile_eq_filter (condition : Key × Value → Bool)
    (inherited : ∀ left right : Key × Value, left.1 ≤ right.1 →
      condition right = true → condition left = true)
    (sorted : Sorted entries) :
    entries.takeWhile condition = entries.filter condition ∧
      entries.dropWhile condition = entries.filter fun entry => !condition entry := by
  induction entries with
  | nil => exact ⟨rfl, rfl⟩
  | cons first rest induction =>
      have ordered := List.pairwise_cons.mp sorted
      cases holds : condition first with
      | true => simp [holds, induction ordered.2]
      | false =>
          have fails : ∀ entry ∈ rest, condition entry = false := by
            intro entry member
            rw [← Bool.not_eq_true]
            intro holdsLater
            have holdsFirst := inherited first entry (ordered.1 entry member) holdsLater
            rw [holds] at holdsFirst
            cases holdsFirst
          have none : rest.filter condition = [] := by
            rw [List.filter_eq_nil_iff]
            simpa using fails
          have all : (rest.filter fun entry => !condition entry) = rest := by
            rw [List.filter_eq_self]
            simpa using fails
          simp [holds, none, all]

theorem Sorted.filter {condition : Key × Value → Bool} (sorted : Sorted entries) :
    Sorted (entries.filter condition) :=
  List.Pairwise.filter _ sorted

/-- The entries up to and with `key` form a prefix. -/
theorem Sorted.split_le (key : Key) (sorted : Sorted entries) :
    (entries.takeWhile fun entry => entry.1 ≤ key) =
        entries.filter (fun entry => entry.1 ≤ key) ∧
      upperBound key entries = entries.filter fun entry => key < entry.1 := by
  have inherited : ∀ left right : Key × Value, left.1 ≤ right.1 →
      decide (right.1 ≤ key) = true → decide (left.1 ≤ key) = true := by
    intro left right ordered below
    rw [decide_eq_true_eq] at below ⊢
    exact le_trans ordered below
  have split := sorted.takeWhile_eq_filter (fun entry => entry.1 ≤ key) inherited
  refine ⟨split.1, ?_⟩
  rw [upperBound, split.2]
  apply List.filter_congr
  intro entry _
  rw [Bool.eq_iff_iff]
  simp

theorem Sorted.split_lt (key : Key) (sorted : Sorted entries) :
    (entries.takeWhile fun entry => entry.1 < key) =
        entries.filter (fun entry => entry.1 < key) ∧
      lowerBound key entries = entries.filter fun entry => key ≤ entry.1 := by
  have inherited : ∀ left right : Key × Value, left.1 ≤ right.1 →
      decide (right.1 < key) = true → decide (left.1 < key) = true := by
    intro left right ordered below
    rw [decide_eq_true_eq] at below ⊢
    exact lt_of_le_of_lt ordered below
  have split := sorted.takeWhile_eq_filter (fun entry => entry.1 < key) inherited
  refine ⟨split.1, ?_⟩
  rw [lowerBound, split.2]
  apply List.filter_congr
  intro entry _
  rw [Bool.eq_iff_iff]
  simp

theorem Sorted.eq_range_append (key : Key) (sorted : Sorted entries) :
    entries = entries.takeWhile (fun entry => entry.1 < key) ++
      (lowerBound key entries).takeWhile (fun entry => entry.1 ≤ key) ++
        upperBound key entries := by
  have behind : upperBound key (lowerBound key entries) = upperBound key entries := by
    have atLeast : Sorted (lowerBound key entries) := by
      rw [(sorted.split_lt key).2]
      exact sorted.filter
    rw [(atLeast.split_le key).2, (sorted.split_le key).2, (sorted.split_lt key).2,
      List.filter_filter]
    apply List.filter_congr
    intro entry _
    rw [Bool.eq_iff_iff]
    simpa using le_of_lt
  rw [List.append_assoc, ← behind, upperBound, List.takeWhile_append_dropWhile, lowerBound,
    List.takeWhile_append_dropWhile]

omit [LinearOrder Key] in
theorem eraseP_eq_filter [DecidableEq Value] {value : Value}
    (distinct : (entries.map Prod.snd).Nodup) :
    entries.eraseP (fun entry => entry.2 = value) =
      entries.filter fun entry => entry.2 ≠ value := by
  induction entries with
  | nil => rfl
  | cons first rest induction =>
      rw [List.map_cons, List.nodup_cons] at distinct
      by_cases same : first.2 = value
      · have others : (rest.filter fun entry => entry.2 ≠ value) = rest := by
          rw [List.filter_eq_self]
          intro entry member
          have mapped : entry.2 ∈ rest.map Prod.snd := List.mem_map_of_mem member
          simp only [ne_eq, decide_eq_true_eq]
          intro equal
          rw [same, ← equal] at distinct
          exact distinct.1 mapped
        rw [List.eraseP_cons_of_pos (by simpa using same),
          List.filter_cons_of_neg (by simpa using same), others]
      · rw [List.eraseP_cons_of_neg (by simpa using same),
          List.filter_cons_of_pos (by simpa using same), induction distinct.2]

/-- Searching only between the bounds of a value's key misses no entry. -/
theorem Sorted.eraseInRange_eq [DecidableEq Value] {key : Key} {value : Value}
    (sorted : Sorted entries) (distinct : (entries.map Prod.snd).Nodup)
    (keyed : ∀ entry ∈ entries, entry.2 = value → entry.1 = key) :
    eraseInRange key value entries = entries.filter fun entry => entry.2 ≠ value := by
  have rangeDistinct : (((lowerBound key entries).takeWhile
      fun entry => entry.1 ≤ key).map Prod.snd).Nodup := by
    apply List.Nodup.sublist _ distinct
    apply List.Sublist.map
    exact (List.takeWhile_sublist _).trans (List.dropWhile_sublist _)
  have front : ((entries.takeWhile fun entry => entry.1 < key).filter
      fun entry => entry.2 ≠ value) = entries.takeWhile fun entry => entry.1 < key := by
    rw [List.filter_eq_self, (sorted.split_lt key).1]
    intro entry member
    rw [List.mem_filter, decide_eq_true_eq] at member
    have other := mt (keyed entry member.1) (ne_of_lt member.2)
    simpa using other
  have back : ((upperBound key entries).filter fun entry => entry.2 ≠ value) =
      upperBound key entries := by
    rw [List.filter_eq_self, (sorted.split_le key).2]
    intro entry member
    rw [List.mem_filter, decide_eq_true_eq] at member
    have other := mt (keyed entry member.1) (ne_of_gt member.2)
    simpa using other
  conv => rhs; rw [sorted.eq_range_append key, List.filter_append, List.filter_append]
  rw [eraseInRange, front, back, eraseP_eq_filter rangeDistinct]

omit [LinearOrder Key] in
theorem filter_eraseP_eq_tail [DecidableEq Value] (value : Value)
    (entries : List (Key × Value)) :
    ((entries.eraseP fun entry => entry.2 = value).filter fun entry => entry.2 = value) =
      (entries.filter fun entry => entry.2 = value).tail := by
  induction entries with
  | nil => rfl
  | cons first rest induction =>
      by_cases same : first.2 = value
      · rw [List.eraseP_cons_of_pos (by simpa using same),
          List.filter_cons_of_pos (by simpa using same), List.tail_cons]
      · rw [List.eraseP_cons_of_neg (by simpa using same),
          List.filter_cons_of_neg (by simpa using same),
          List.filter_cons_of_neg (by simpa using same), induction]

/-- Without its first entry, the middle of a list leaves nothing in it exactly
if the list is empty, or just this entry. -/
theorem append_tail_eq_nil_iff {Entry : Type w} {entry : Entry} {front middle back : List Entry}
    (notFront : entry ∉ front) (inMiddle : ∀ other ∈ middle, other = entry)
    (notBack : entry ∉ back) :
    front ++ middle.tail ++ back = [] ↔
      front ++ middle ++ back = [] ∨ front ++ middle ++ back = [entry] := by
  rw [List.append_eq_nil_iff, List.append_eq_nil_iff, List.append_eq_nil_iff,
    List.append_eq_nil_iff]
  constructor
  · rintro ⟨⟨rfl, oneLeft⟩, rfl⟩
    cases middle with
    | nil => exact .inl ⟨⟨rfl, rfl⟩, rfl⟩
    | cons first rest =>
        rw [List.tail_cons] at oneLeft
        rw [oneLeft, inMiddle first List.mem_cons_self]
        exact .inr rfl
  · rintro (⟨⟨rfl, rfl⟩, rfl⟩ | single)
    · exact ⟨⟨rfl, rfl⟩, rfl⟩
    · rw [List.append_assoc, List.append_eq_singleton_iff] at single
      rcases single with ⟨rfl, single⟩ | ⟨single, _⟩
      · rw [List.append_eq_singleton_iff] at single
        rcases single with ⟨rfl, single⟩ | ⟨rfl, rfl⟩
        · rw [single] at notBack
          exact absurd List.mem_cons_self notBack
        · exact ⟨⟨rfl, rfl⟩, rfl⟩
      · rw [single] at notFront
        exact absurd List.mem_cons_self notFront

/-- Erasing leaves no entry with the value exactly if there was none, or only
one and that with the key. -/
theorem Sorted.filter_eraseInRange_eq_nil_iff [DecidableEq Value] {key : Key} {value : Value}
    (sorted : Sorted entries) :
    ((eraseInRange key value entries).filter fun entry => entry.2 = value) = [] ↔
      (entries.filter fun entry => entry.2 = value) = [] ∨
        (entries.filter fun entry => entry.2 = value) = [(key, value)] := by
  have front : (key, value) ∉ (entries.takeWhile fun entry => entry.1 < key).filter
      fun entry => entry.2 = value := by
    rw [(sorted.split_lt key).1]
    simp
  have back : (key, value) ∉ (upperBound key entries).filter fun entry => entry.2 = value := by
    rw [(sorted.split_le key).2]
    simp
  have range : ∀ entry ∈ ((lowerBound key entries).takeWhile fun entry => entry.1 ≤ key).filter
      (fun entry => entry.2 = value), entry = (key, value) := by
    intro entry member
    rw [List.mem_filter, decide_eq_true_eq] at member
    have below := List.all_eq_true.mp List.all_takeWhile entry member.1
    have inside := (List.takeWhile_sublist _).subset member.1
    rw [(sorted.split_lt key).2, List.mem_filter] at inside
    simp only [decide_eq_true_eq] at below inside
    exact Prod.ext (le_antisymm below inside.2) member.2
  have whole : (entries.filter fun entry => entry.2 = value) = _ :=
    congrArg (List.filter fun entry => entry.2 = value) (sorted.eq_range_append key)
  rw [whole, eraseInRange, List.filter_append, List.filter_append, List.filter_append,
    List.filter_append, filter_eraseP_eq_tail]
  exact append_tail_eq_nil_iff front range back

theorem Sorted.eraseInRange_sublist [DecidableEq Value] (sorted : Sorted entries) (key : Key)
    (value : Value) : (eraseInRange key value entries).Sublist entries := by
  conv => rhs; rw [sorted.eq_range_append key]
  rw [eraseInRange]
  exact ((List.Sublist.refl _).append List.eraseP_sublist).append (.refl _)

theorem Sorted.head_le {first entry : Key × Value} {rest : List (Key × Value)}
    (sorted : Sorted (first :: rest)) (member : entry ∈ first :: rest) :
    first.1 ≤ entry.1 := by
  rcases List.mem_cons.mp member with rfl | member
  · exact le_refl _
  · exact (List.pairwise_cons.mp sorted).1 entry member

namespace StableSort

theorem nil : StableSort ([] : List (Key × Value)) [] where
  sorted := List.Pairwise.nil
  sameKey _ := rfl

theorem mem_iff (stable : StableSort queue entries) {entry : Key × Value} :
    entry ∈ entries ↔ entry ∈ queue := by
  have sameKey := stable.sameKey entry.1
  have inEntries : entry ∈ entries ↔ entry ∈ entries.filter fun other => other.1 = entry.1 := by
    simp [List.mem_filter]
  have inQueue : entry ∈ queue ↔ entry ∈ queue.filter fun other => other.1 = entry.1 := by
    simp [List.mem_filter]
  rw [inEntries, sameKey, ← inQueue]

theorem perm [DecidableEq Value] (stable : StableSort queue entries) :
    entries.Perm queue := by
  rw [List.perm_iff_count]
  intro entry
  have counted : ∀ list : List (Key × Value),
      (list.filter fun other => other.1 = entry.1).count entry = list.count entry :=
    fun list => List.count_filter (decide_eq_true rfl)
  rw [← counted entries, stable.sameKey, counted]

theorem filter (condition : Key × Value → Bool) (stable : StableSort queue entries) :
    StableSort (queue.filter condition) (entries.filter condition) where
  sorted := stable.sorted.filter
  sameKey key := by
    have swapped : ∀ list : List (Key × Value),
        ((list.filter condition).filter fun entry => entry.1 = key) =
          (list.filter fun entry => entry.1 = key).filter condition := by
      intro list
      rw [List.filter_filter, List.filter_filter]
      apply List.filter_congr
      intro entry _
      exact Bool.and_comm _ _
    rw [swapped, swapped, stable.sameKey]

theorem filter_emplace (key : Key) {value : Value} {other : Key} (sorted : Sorted entries) :
    ((emplace key value entries).filter fun entry => entry.1 = other) =
      (entries ++ [(key, value)]).filter fun entry => entry.1 = other := by
  induction entries with
  | nil => rfl
  | cons first rest induction =>
      have ordered := List.pairwise_cons.mp sorted
      rw [SortedMap.emplace]
      split
      case isTrue before =>
        by_cases same : key = other
        · have later : ((first :: rest).filter fun entry => entry.1 = other) = [] := by
            rw [List.filter_eq_nil_iff]
            intro entry member
            have notBefore := sorted.head_le member
            simp only [decide_eq_true_eq]
            intro equal
            rw [equal, ← same] at notBefore
            exact not_lt_of_ge notBefore before
          rw [List.filter_append, later, List.filter_cons_of_pos (by simpa using same), later]
          simp [same]
        · rw [List.filter_append, List.filter_cons_of_neg (by simpa using same)]
          simp [same]
      case isFalse =>
        rw [List.cons_append, List.filter_cons, List.filter_cons, induction ordered.2]

theorem emplace (key : Key) (value : Value) (stable : StableSort queue entries) :
    StableSort (queue ++ [(key, value)]) (emplace key value entries) where
  sorted := stable.sorted.emplace
  sameKey other := by
    rw [filter_emplace key stable.sorted, List.filter_append, List.filter_append,
      stable.sameKey]

end StableSort

end NetRpc.SortedMap
