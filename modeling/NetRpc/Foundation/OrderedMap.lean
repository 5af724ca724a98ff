import NetRpc.Foundation.SortedMap

/-! # Maps with one entry for each key

A `std::map` is the list of its entries in strictly ascending key order. What
an operation does is said by `lookup`: it changes what one key finds.
-/

namespace NetRpc.SortedMap

variable {Key : Type u} {Value : Type v} [LinearOrder Key]

def Strict (entries : List (Key × Value)) : Prop :=
  entries.Pairwise fun left right => left.1 < right.1

/-- `map::insert`, which keeps an entry that exists. -/
def insert (key : Key) (value : Value) : List (Key × Value) → List (Key × Value)
  | [] => [(key, value)]
  | entry :: rest =>
      if key < entry.1 then (key, value) :: entry :: rest
      else if key = entry.1 then entry :: rest
      else entry :: insert key value rest

/-- `map::erase` of what `map::find` finds. -/
def erase (key : Key) (entries : List (Key × Value)) : List (Key × Value) :=
  entries.eraseP fun entry => entry.1 = key

variable {entries : List (Key × Value)} {key : Key} {value : Value}

theorem Strict.sorted (strict : Strict entries) : Sorted entries :=
  strict.imp le_of_lt

theorem Strict.nil : Strict ([] : List (Key × Value)) :=
  List.Pairwise.nil

theorem Strict.cons_before {first : Key × Value} {rest : List (Key × Value)}
    (strict : Strict (first :: rest)) (before : key < first.1) :
    Strict ((key, value) :: first :: rest) := by
  apply List.pairwise_cons.mpr
  refine ⟨fun entry member => ?_, strict⟩
  rcases List.mem_cons.mp member with rfl | member
  · exact before
  · exact lt_trans before ((List.pairwise_cons.mp strict).1 entry member)

/-! ## Lookup -/

theorem lookup_cons (entry : Key × Value) (rest : List (Key × Value)) (other : Key) :
    (entry :: rest).lookup other = if other = entry.1 then some entry.2 else rest.lookup other := by
  rcases entry with ⟨key, value⟩
  rw [List.lookup_cons]
  by_cases same : other = key
  · rw [if_pos same, beq_iff_eq.mpr same]
  · rw [if_neg same, beq_eq_false_iff_ne.mpr same]

theorem mem_of_lookup (found : entries.lookup key = some value) : (key, value) ∈ entries := by
  induction entries with
  | nil => cases found
  | cons entry rest induction =>
      rw [lookup_cons] at found
      split at found
      case isTrue same =>
        cases found
        rw [same]
        exact List.mem_cons_self
      case isFalse => exact List.mem_cons_of_mem _ (induction found)

theorem lookup_eq_none_iff : entries.lookup key = none ↔ ∀ entry ∈ entries, entry.1 ≠ key := by
  induction entries with
  | nil => simp
  | cons entry rest induction =>
      rw [lookup_cons, List.forall_mem_cons, ← induction]
      by_cases same : key = entry.1
      · simp [same]
      · simp [same, Ne.symm same]

theorem Strict.lookup_of_mem (strict : Strict entries) (member : (key, value) ∈ entries) :
    entries.lookup key = some value := by
  induction entries with
  | nil => cases member
  | cons entry rest induction =>
      have ordered := List.pairwise_cons.mp strict
      rw [lookup_cons]
      rcases List.mem_cons.mp member with same | later
      · rw [← same, if_pos rfl]
      · rw [if_neg (ne_of_gt (ordered.1 _ later))]
        exact induction ordered.2 later

theorem Strict.lookup_eq_some_iff (strict : Strict entries) :
    entries.lookup key = some value ↔ (key, value) ∈ entries :=
  ⟨mem_of_lookup, strict.lookup_of_mem⟩

omit [LinearOrder Key] in
/-- What a key finds behind a run of updates, where an update rewrites what its
key finds, and rewriting twice is rewriting once. -/
theorem find_foldl [DecidableEq Key] {State : Type w} {update : State → Key → State}
    {other : Key} (find : State → Option Value) (rewrite : Option Value → Option Value)
    (updated : ∀ state key,
      find (update state key) = if other = key then rewrite (find state) else find state)
    (settled : ∀ found, rewrite (rewrite found) = rewrite found) (keys : List Key)
    (state : State) :
    find (keys.foldl update state) =
      if other ∈ keys then rewrite (find state) else find state := by
  induction keys generalizing state with
  | nil => rfl
  | cons key rest induction =>
      rw [List.foldl_cons, induction, updated]
      by_cases here : other = key
      · rw [if_pos here, settled, ite_self, here, if_pos List.mem_cons_self]
      · have inTail : other ∈ key :: rest ↔ other ∈ rest := by
          rw [List.mem_cons, or_iff_right here]
        rw [if_neg here, if_congr inTail rfl rfl]

/-! ## Assignment -/

theorem Strict.assign (strict : Strict entries) : Strict (assign key value entries) := by
  induction entries with
  | nil => exact List.pairwise_singleton _ _
  | cons first rest induction =>
      have ordered := List.pairwise_cons.mp strict
      rw [SortedMap.assign]
      split
      case isTrue before => exact strict.cons_before before
      case isFalse notBefore =>
        split
        case isTrue same =>
          apply List.pairwise_cons.mpr
          refine ⟨fun entry member => ?_, ordered.2⟩
          rw [same]
          exact ordered.1 entry member
        case isFalse different =>
          apply List.pairwise_cons.mpr
          refine ⟨fun entry member => ?_, induction ordered.2⟩
          rcases eq_or_mem_of_mem_assign member with rfl | member
          · exact lt_of_le_of_ne (le_of_not_gt notBefore) (Ne.symm different)
          · exact ordered.1 entry member

theorem lookup_assign (key : Key) (value : Value) (entries : List (Key × Value)) (other : Key) :
    (assign key value entries).lookup other =
      if other = key then some value else entries.lookup other := by
  induction entries with
  | nil => rw [assign, lookup_cons]
  | cons first rest induction =>
      rw [assign]
      split
      · rw [lookup_cons]
      · split
        case isTrue same =>
          rw [lookup_cons, lookup_cons, same]
          split <;> rfl
        case isFalse different =>
          rw [lookup_cons, lookup_cons, induction]
          by_cases found : other = first.1
          · rw [if_pos found, if_pos found, if_neg (found ▸ Ne.symm different)]
          · rw [if_neg found, if_neg found]

theorem lookup_foldl_assign (keys : List Key) (value : Value) (entries : List (Key × Value))
    (other : Key) :
    (keys.foldl (fun entries key => assign key value entries) entries).lookup other =
      if other ∈ keys then some value else entries.lookup other := by
  apply find_foldl (List.lookup other) fun _ => some value
  · exact fun entries key => lookup_assign key value entries other
  · exact fun _ => rfl

/-! ## Insertion -/

theorem eq_or_mem_of_mem_insert {entry : Key × Value}
    (member : entry ∈ insert key value entries) : entry = (key, value) ∨ entry ∈ entries := by
  induction entries with
  | nil => exact .inl (List.mem_singleton.mp member)
  | cons first rest induction =>
      rw [insert] at member
      split at member
      · exact List.mem_cons.mp member
      · split at member
        · exact .inr member
        · rcases List.mem_cons.mp member with rfl | later
          · exact .inr List.mem_cons_self
          · rcases induction later with same | inside
            · exact .inl same
            · exact .inr (List.mem_cons_of_mem _ inside)

theorem Strict.insert (strict : Strict entries) : Strict (insert key value entries) := by
  induction entries with
  | nil => exact List.pairwise_singleton _ _
  | cons first rest induction =>
      have ordered := List.pairwise_cons.mp strict
      rw [SortedMap.insert]
      split
      case isTrue before => exact strict.cons_before before
      case isFalse notBefore =>
        split
        case isTrue => exact strict
        case isFalse different =>
          apply List.pairwise_cons.mpr
          refine ⟨fun entry member => ?_, induction ordered.2⟩
          rcases eq_or_mem_of_mem_insert member with rfl | member
          · exact lt_of_le_of_ne (le_of_not_gt notBefore) (Ne.symm different)
          · exact ordered.1 entry member

theorem Strict.lookup_insert (strict : Strict entries) (other : Key) :
    (SortedMap.insert key value entries).lookup other =
      if other = key then some ((entries.lookup key).getD value) else entries.lookup other := by
  induction entries with
  | nil => rw [SortedMap.insert, lookup_cons]; rfl
  | cons first rest induction =>
      have ordered := List.pairwise_cons.mp strict
      rw [SortedMap.insert]
      split
      case isTrue before =>
        have absent : (first :: rest).lookup key = none := by
          rw [lookup_eq_none_iff, List.forall_mem_cons]
          exact ⟨ne_of_gt before,
            fun entry member => ne_of_gt (lt_trans before (ordered.1 entry member))⟩
        rw [lookup_cons (key, value), absent]
        rfl
      case isFalse =>
        split
        case isTrue same =>
          rw [lookup_cons, lookup_cons, if_pos same, Option.getD_some, same]
          split <;> rfl
        case isFalse different =>
          rw [lookup_cons, lookup_cons, lookup_cons, if_neg different, induction ordered.2]
          by_cases found : other = first.1
          · rw [if_pos found, if_pos found, if_neg (found ▸ Ne.symm different)]
          · rw [if_neg found, if_neg found]

/-! ## Erasure -/

theorem Strict.erase (key : Key) (strict : Strict entries) : Strict (erase key entries) :=
  List.Pairwise.sublist List.eraseP_sublist strict

theorem Strict.lookup_erase (strict : Strict entries) (key other : Key) :
    (SortedMap.erase key entries).lookup other =
      if other = key then none else entries.lookup other := by
  induction entries with
  | nil => exact (ite_self _).symm
  | cons first rest induction =>
      have ordered := List.pairwise_cons.mp strict
      by_cases here : first.1 = key
      · rw [SortedMap.erase, List.eraseP_cons_of_pos (by simpa using here), lookup_cons, here]
        by_cases same : other = key
        · rw [if_pos same, lookup_eq_none_iff]
          intro entry member
          rw [same, ← here]
          exact ne_of_gt (ordered.1 entry member)
        · rw [if_neg same, if_neg same]
      · have later := induction ordered.2
        rw [SortedMap.erase] at later
        rw [SortedMap.erase, List.eraseP_cons_of_neg (by simpa using here), lookup_cons,
          lookup_cons, later]
        by_cases found : other = first.1
        · rw [if_pos found, if_pos found, if_neg (found ▸ here)]
        · rw [if_neg found, if_neg found]

end NetRpc.SortedMap
