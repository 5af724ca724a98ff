import Mathlib.Data.List.Basic

/-! # A sequence in groups

Items with a key make up groups. Where the keys of a sequence never go back, the
sequence is its groups, one after another.
-/

namespace NetRpc.Grouping

variable {Item : Type u} {Key : Type v} [DecidableEq Key] {key : Item → Key}
  {before : Key → Key → Prop} {items : List Item} {keys : List Key}

def group (key : Item → Key) (items : List Item) (wanted : Key) : List Item :=
  items.filter fun item => key item = wanted

/-- The groups of these keys, in ascending order, are the sequence. -/
structure Groups (before : Key → Key → Prop) (key : Item → Key) (items : List Item)
    (keys : List Key) : Prop where
  ascending : keys.Pairwise before
  whole : keys.flatMap (group key items) = items

theorem group_append (key : Item → Key) (items : List Item) (item : Item) (wanted : Key) :
    group key (items ++ [item]) wanted =
      group key items wanted ++ if key item = wanted then [item] else [] := by
  rw [group, List.filter_append, List.filter_cons, List.filter_nil]
  simp only [decide_eq_true_eq]
  rfl

theorem flatMap_group_append {item : Item} (others : ∀ wanted ∈ keys, key item ≠ wanted) :
    keys.flatMap (group key (items ++ [item])) = keys.flatMap (group key items) := by
  apply List.flatMap_congr
  intro wanted member
  rw [group_append, if_neg (others wanted member), List.append_nil]

theorem Groups.nil : Groups before key ([] : List Item) [] where
  ascending := .nil
  whole := rfl

omit [DecidableEq Key] in
/-- No key comes behind the key that is the last one. -/
theorem last_of_newest (asymmetric : ∀ first second, before first second → ¬before second first)
    {last : Key} {earlier later : List Key}
    (ascending : (earlier ++ last :: later).Pairwise before)
    (newest : ∀ wanted ∈ earlier ++ last :: later, wanted = last ∨ before wanted last) :
    later = [] ∧ last ∉ earlier := by
  rcases List.pairwise_append.mp ascending with ⟨_, behind, across⟩
  have irreflexive : ¬before last last := fun itself => asymmetric last last itself itself
  constructor
  · apply List.eq_nil_iff_forall_not_mem.mpr
    intro wanted member
    have after : before last wanted := (List.pairwise_cons.mp behind).1 wanted member
    rcases newest wanted (List.mem_append_right _ (.tail _ member)) with same | earlier
    · exact irreflexive (same ▸ after)
    · exact asymmetric last wanted after earlier
  · intro member
    exact irreflexive (across last member last List.mem_cons_self)

theorem Groups.append (asymmetric : ∀ first second, before first second → ¬before second first)
    (groups : Groups before key items keys) {item : Item}
    (newest : ∀ wanted ∈ keys, wanted = key item ∨ before wanted (key item)) :
    ∃ next, Groups before key (items ++ [item]) next ∧
      ∀ wanted ∈ next, wanted ∈ keys ∨ wanted = key item := by
  by_cases known : key item ∈ keys
  · rcases List.append_of_mem known with ⟨earlier, later, rfl⟩
    rcases last_of_newest asymmetric groups.ascending newest with ⟨rfl, fresh⟩
    refine ⟨_, ⟨groups.ascending, ?_⟩, fun _ => .inl⟩
    have others : ∀ wanted ∈ earlier, key item ≠ wanted := by
      intro wanted member same
      subst same
      exact fresh member
    have whole := groups.whole
    rw [List.flatMap_append, List.flatMap_singleton] at whole
    rw [List.flatMap_append, List.flatMap_singleton, flatMap_group_append others, group_append,
      if_pos rfl, ← List.append_assoc, whole]
  · refine ⟨keys ++ [key item], ⟨?_, ?_⟩, ?_⟩
    · apply List.pairwise_append.mpr
      refine ⟨groups.ascending, List.pairwise_singleton _ _, ?_⟩
      intro wanted member last isLast
      rw [List.mem_singleton.mp isLast]
      rcases newest wanted member with same | earlier
      · exact absurd (same ▸ member) known
      · exact earlier
    · have none : group key items (key item) = [] := by
        apply List.filter_eq_nil_iff.mpr
        intro other member same
        rw [← groups.whole] at member
        rcases List.mem_flatMap.mp member with ⟨wanted, there, inside⟩
        have itsKey := of_decide_eq_true (List.mem_filter.mp inside).2
        rw [← of_decide_eq_true same, itsKey] at known
        exact known there
      have others : ∀ wanted ∈ keys, key item ≠ wanted := by
        intro wanted member same
        subst same
        exact known member
      rw [List.flatMap_append, List.flatMap_singleton, flatMap_group_append others, groups.whole,
        group_append, if_pos rfl, none, List.nil_append]
    · intro wanted member
      exact (List.mem_append.mp member).imp_right List.mem_singleton.mp

end NetRpc.Grouping
