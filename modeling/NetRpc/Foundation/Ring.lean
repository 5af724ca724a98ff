import Mathlib.Data.Prod.Lex
import Mathlib.Data.Set.Insert
import NetRpc.Foundation.OrderedMap

/-! # Rings

Positions on a circle, some of which are owned. A key is served by the first
owned position from its own on, and past the last one by the first of all. A
ring that differs from another only where one owner stands serves the same
owner, unless it is that one.
-/

namespace NetRpc.Ring

variable {Position : Type u} {Owner : Type v} [LinearOrder Position]

/-- Positions behind `key` come after all others. -/
def fromKey (key position : Position) : Bool ×ₗ Position :=
  toLex (decide (position < key), position)

/-- `position` is the first of the `occupied` ones, clockwise from `key`. -/
structure Next (occupied : Set Position) (key position : Position) : Prop where
  mem : position ∈ occupied
  first : ∀ other ∈ occupied, fromKey key position ≤ fromKey key other

def occupied (owner : Position → Option Owner) : Set Position :=
  { position | owner position ≠ none }

/-- `key` is served by `node`. -/
def Serves (owner : Position → Option Owner) (key : Position) (node : Owner) : Prop :=
  ∃ position, Next (occupied owner) key position ∧ owner position = some node

open Classical in
/-- The ring without what stands at the `erased` positions. -/
noncomputable def without (owner : Position → Option Owner) (erased : Set Position)
    (position : Position) : Option Owner :=
  if position ∈ erased then none else owner position

theorem fromKey_injective (key : Position) : Function.Injective (fromKey key) := by
  intro left right same
  exact congrArg Prod.snd (toLex.injective same)

namespace Next

variable {before after : Set Position} {key position other : Position}

theorem unique (left : Next before key position) (right : Next before key other) :
    position = other :=
  fromKey_injective key (le_antisymm (left.first other right.mem) (right.first position left.mem))

theorem of_subset (next : Next before key position) (subset : after ⊆ before)
    (kept : position ∈ after) : Next after key position where
  mem := kept
  first other member := next.first other (subset member)

end Next

variable {before after owner : Position → Option Owner} {key : Position} {node other : Owner}

theorem Serves.unique (left : Serves owner key node) (right : Serves owner key other) :
    node = other := by
  rcases left with ⟨position, next, owned⟩
  rcases right with ⟨position', next', owned'⟩
  rw [next.unique next', owned'] at owned
  exact Option.some.inj owned.symm

/-- Where only positions of `leaving` change, and those of others stay, the
keys of the others stay. -/
theorem Serves.of_leaving {leaving : Owner}
    (unchanged : ∀ position, before position ≠ some leaving → after position = before position)
    (serves : Serves before key node) (different : node ≠ leaving) :
    Serves after key node := by
  rcases serves with ⟨position, next, owned⟩
  have notLeaving : before position ≠ some leaving := by
    rw [owned, ne_eq, Option.some.injEq]
    exact different
  have owned' : after position = some node := (unchanged position notLeaving).trans owned
  refine ⟨position, next.of_subset ?_ ?_, owned'⟩
  · intro other occupiedAfter free
    apply occupiedAfter
    rw [unchanged other, free]
    rw [free]
    exact (Option.some_ne_none leaving).symm
  · rw [occupied, Set.mem_ofPred_eq, owned']
    exact Option.some_ne_none node

section Without

variable {erased : Set Position} {position : Position}

omit [LinearOrder Position] in
theorem without_of_mem (inside : position ∈ erased) : without owner erased position = none :=
  if_pos inside

omit [LinearOrder Position] in
theorem without_of_notMem (outside : position ∉ erased) :
    without owner erased position = owner position :=
  if_neg outside

omit [LinearOrder Position] in
theorem occupied_without :
    occupied (without owner erased) = { position | owner position ≠ none ∧ position ∉ erased } := by
  ext position
  rw [occupied, Set.mem_ofPred_eq, Set.mem_ofPred_eq]
  by_cases inside : position ∈ erased
  · simp [without_of_mem inside, inside]
  · simp [without_of_notMem inside, inside]

/-- Where positions are erased whoever owns them, a key stays with its node
exactly if the position that serves it stays, or the next one that stays is
owned by the same node. -/
theorem serves_without_iff (serves : Serves owner key node) :
    Serves (without owner erased) key node ↔
      ∀ position, Next (occupied owner) key position → position ∈ erased →
        ∃ next, Next { position | owner position ≠ none ∧ position ∉ erased } key next ∧
          owner next = some node := by
  rcases serves with ⟨position, next, owned⟩
  constructor
  · rintro ⟨next', isNext, owned'⟩ _ _ _
    rw [occupied_without] at isNext
    rw [without_of_notMem isNext.mem.2] at owned'
    exact ⟨next', isNext, owned'⟩
  · intro condition
    by_cases inside : position ∈ erased
    · rcases condition position next inside with ⟨next', isNext, owned'⟩
      refine ⟨next', ?_, ?_⟩
      · rw [occupied_without]
        exact isNext
      · rw [without_of_notMem isNext.mem.2, owned']
    · refine ⟨position, ?_, ?_⟩
      · rw [occupied_without]
        exact next.of_subset (fun _ member => member.1) ⟨next.mem, inside⟩
      · rw [without_of_notMem inside, owned]

end Without

/-! ## A ring as a map -/

/-- The value at `lower_bound(key)`, or else at `begin()`. There is none in an
empty map. -/
def pick (key : Position) (entries : List (Position × Owner)) : Option Owner :=
  match SortedMap.lowerBound key entries with
  | entry :: _ => some entry.2
  | [] => entries.head?.map Prod.snd

def ownerIn (entries : List (Position × Owner)) (position : Position) : Option Owner :=
  entries.lookup position

variable {entries : List (Position × Owner)}

theorem serves_of_first {entry : Position × Owner} (strict : SortedMap.Strict entries)
    (member : entry ∈ entries)
    (first : ∀ other ∈ entries, fromKey key entry.1 ≤ fromKey key other.1) :
    Serves (ownerIn entries) key entry.2 := by
  have found := strict.lookup_of_mem member
  refine ⟨entry.1, ⟨?_, ?_⟩, found⟩
  · rw [occupied, Set.mem_ofPred_eq, ownerIn, found]
    exact Option.some_ne_none entry.2
  · intro position owned
    rcases Option.ne_none_iff_exists'.mp owned with ⟨owner, found⟩
    exact first (position, owner) (SortedMap.mem_of_lookup found)

theorem serves_of_pick (strict : SortedMap.Strict entries)
    (picked : pick key entries = some node) : Serves (ownerIn entries) key node := by
  have split := (strict.sorted.split_lt key).2
  rw [pick] at picked
  split at picked
  case h_1 entry rest bound =>
    cases picked
    rw [bound] at split
    have member : entry ∈ entries.filter fun entry => key ≤ entry.1 := by
      rw [← split]
      exact List.mem_cons_self
    rw [List.mem_filter, decide_eq_true_eq] at member
    apply serves_of_first strict member.1
    intro other inside
    rw [fromKey, fromKey, decide_eq_false (not_lt_of_ge member.2), Prod.Lex.toLex_le_toLex]
    by_cases behind : other.1 < key
    · left
      simp [behind]
    · right
      have later : other ∈ entry :: rest := by
        rw [split, List.mem_filter, decide_eq_true_eq]
        exact ⟨inside, le_of_not_gt behind⟩
      have sortedRest : SortedMap.Sorted (entry :: rest) := by
        rw [split]
        exact strict.sorted.filter
      exact ⟨(decide_eq_false behind).symm, sortedRest.head_le later⟩
  case h_2 bound =>
    rw [bound] at split
    cases entries with
    | nil => cases picked
    | cons first rest =>
        cases picked
        apply serves_of_first strict List.mem_cons_self
        have behind : ∀ other ∈ first :: rest, other.1 < key := by
          intro other inside
          by_contra notBehind
          have bounded : other ∈ (first :: rest).filter fun entry => key ≤ entry.1 := by
            rw [List.mem_filter, decide_eq_true_eq]
            exact ⟨inside, le_of_not_gt notBehind⟩
          rw [← split] at bounded
          cases bounded
        intro other inside
        rw [fromKey, fromKey, decide_eq_true (behind first List.mem_cons_self),
          decide_eq_true (behind other inside), Prod.Lex.toLex_le_toLex]
        exact .inr ⟨rfl, strict.sorted.head_le inside⟩

theorem Serves.mem (serves : Serves (ownerIn entries) key node) :
    ∃ position, (position, node) ∈ entries := by
  rcases serves with ⟨position, _, owned⟩
  exact ⟨position, SortedMap.mem_of_lookup owned⟩

theorem pick_eq_none_iff : pick key entries = none ↔ entries = [] := by
  rw [pick]
  split
  case h_1 entry rest bound =>
    have member : entry ∈ entries := by
      apply (List.dropWhile_sublist fun entry => decide (entry.1 < key)).subset
      rw [← SortedMap.lowerBound, bound]
      exact List.mem_cons_self
    constructor
    · intro impossible
      cases impossible
    · rintro rfl
      cases member
  case h_2 => rw [Option.map_eq_none_iff, List.head?_eq_none_iff]

/-- What the map picks is what the ring serves. -/
theorem pick_eq_some_iff (strict : SortedMap.Strict entries) :
    pick key entries = some node ↔ Serves (ownerIn entries) key node := by
  constructor
  · exact serves_of_pick strict
  · intro serves
    cases picked : pick key entries with
    | none =>
        rcases serves with ⟨_, next, _⟩
        rw [pick_eq_none_iff] at picked
        rw [picked] at next
        exact absurd rfl next.mem
    | some other => rw [serves.unique (serves_of_pick strict picked)]

/-- Rings with the same owners answer alike. -/
theorem pick_congr {entries' : List (Position × Owner)} (strict : SortedMap.Strict entries)
    (strict' : SortedMap.Strict entries') (same : ownerIn entries = ownerIn entries')
    (key : Position) : pick key entries = pick key entries' := by
  apply Option.ext
  intro node
  rw [pick_eq_some_iff strict, pick_eq_some_iff strict', same]

/-- A key at an occupied position is served there. -/
theorem pick_of_ownerIn (strict : SortedMap.Strict entries)
    (owned : ownerIn entries key = some node) : pick key entries = some node := by
  have here : key ∈ occupied (ownerIn entries) := by
    rw [occupied, Set.mem_ofPred_eq, owned]
    exact Option.some_ne_none node
  rw [pick_eq_some_iff strict]
  refine ⟨key, ⟨here, ?_⟩, owned⟩
  intro other _
  rw [fromKey, fromKey, decide_eq_false (lt_irrefl key), Prod.Lex.toLex_le_toLex]
  by_cases behind : other < key
  · left
    simp [behind]
  · right
    exact ⟨(decide_eq_false behind).symm, le_of_not_gt behind⟩

end NetRpc.Ring
