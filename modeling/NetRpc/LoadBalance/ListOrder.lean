import NetRpc.LoadBalance.Disruption
import Mathlib.Data.List.Induction

/-! # The order of the address list

A position that several addresses hash to belongs to the last of them in the
list. So a selector depends on the order of its list, and on nothing but the
members of the list as long as no two addresses have a position in common.
-/

namespace NetRpc.ConsistentHashSelector

variable {Address : Type u} {hashing : Hashing Address} {replicaNumber : Nat}
  {addresses : Set Address}

/-- No two addresses have a position in common. -/
def Apart (hashing : Hashing Address) (replicaNumber : Nat) (addresses : Set Address) : Prop :=
  ∀ left ∈ addresses, ∀ right ∈ addresses, ∀ position ∈ positions hashing replicaNumber left,
    position ∈ positions hashing replicaNumber right → left = right

theorem ownerIn_create_append (invokers : List Address) (invoker : Address)
    (identityHashCode : UInt64) (position : Nat) :
    Ring.ownerIn (create hashing (invokers ++ [invoker]) replicaNumber
        identityHashCode).virtualInvokers position =
      if position ∈ positions hashing replicaNumber invoker then some invoker
      else Ring.ownerIn (create hashing invokers replicaNumber identityHashCode).virtualInvokers
        position := by
  rw [create, List.foldl_append]
  exact lookup_addInvoker hashing replicaNumber _ invoker position

/-- Where no two addresses collide, every address of the list owns all of its
positions, and nobody owns any other. -/
theorem ownerIn_create_eq_some_iff (apart : Apart hashing replicaNumber addresses)
    {invokers : List Address} (within : ∀ invoker ∈ invokers, invoker ∈ addresses)
    (identityHashCode : UInt64) {position : Nat} {address : Address} :
    Ring.ownerIn (create hashing invokers replicaNumber identityHashCode).virtualInvokers
        position = some address ↔
      address ∈ invokers ∧ position ∈ positions hashing replicaNumber address := by
  induction invokers using List.reverseRecOn with
  | nil =>
      constructor
      · intro impossible
        cases impossible
      · intro both
        rcases both with ⟨impossible, _⟩
        cases impossible
  | append_singleton invokers invoker induction =>
      rw [List.forall_mem_append, List.forall_mem_singleton] at within
      rw [ownerIn_create_append, List.mem_append, List.mem_singleton]
      split
      case isTrue inside =>
        constructor
        · rintro ⟨⟩
          exact ⟨.inr rfl, inside⟩
        · intro both
          rcases both with ⟨before | rfl, alsoInside⟩
          · rw [apart address (within.1 address before) invoker within.2 position alsoInside inside]
          · rfl
      case isFalse outside =>
        rw [induction within.1]
        constructor
        · intro both
          rcases both with ⟨before, inside⟩
          exact ⟨.inl before, inside⟩
        · intro both
          rcases both with ⟨before | rfl, inside⟩
          · exact ⟨before, inside⟩
          · exact absurd inside outside

/-- Lists with the same members lead to selectors that answer every hash code alike. -/
def OrderIndependent (hashing : Hashing Address) (replicaNumber : Nat)
    (addresses : Set Address) : Prop :=
  ∀ invokers invokers' : List Address, (∀ invoker ∈ invokers, invoker ∈ addresses) →
    (∀ invoker, invoker ∈ invokers ↔ invoker ∈ invokers') →
    ∀ identityHashCode identityHashCode' hashCode,
      (create hashing invokers replicaNumber identityHashCode).selectForKey hashCode =
        (create hashing invokers' replicaNumber identityHashCode').selectForKey hashCode

theorem Apart.orderIndependent (apart : Apart hashing replicaNumber addresses) :
    OrderIndependent hashing replicaNumber addresses := by
  intro invokers invokers' within sameMembers identityHashCode identityHashCode' hashCode
  have within' : ∀ invoker ∈ invokers', invoker ∈ addresses := by
    intro invoker member
    exact within invoker ((sameMembers invoker).mpr member)
  rw [selectForKey_eq_pick, selectForKey_eq_pick]
  apply Ring.pick_congr (strict_create ..) (strict_create ..)
  funext position
  apply Option.ext
  intro address
  rw [ownerIn_create_eq_some_iff apart within, ownerIn_create_eq_some_iff apart within',
    sameMembers]

/-- A position goes to the address that claims it last. -/
theorem selectForKey_last (first : Address) {last : Address} {position : Nat}
    (identityHashCode : UInt64) (inside : position ∈ positions hashing replicaNumber last) :
    (create hashing [first, last] replicaNumber identityHashCode).selectForKey position =
      some last := by
  rw [selectForKey_eq_pick]
  apply Ring.pick_of_ownerIn (strict_create ..)
  have appended : [first, last] = [first] ++ [last] := rfl
  rw [appended, ownerIn_create_append, if_pos inside]

/-- The order of the list and repetitions in it never matter, exactly if no two
addresses have a position in common. -/
theorem orderIndependent_iff (hashing : Hashing Address) (replicaNumber : Nat)
    (addresses : Set Address) :
    OrderIndependent hashing replicaNumber addresses ↔ Apart hashing replicaNumber addresses := by
  constructor
  · intro independent left leftIn right rightIn position leftInside rightInside
    have within : ∀ invoker ∈ [left, right], invoker ∈ addresses := by
      rw [List.forall_mem_cons, List.forall_mem_singleton]
      exact ⟨leftIn, rightIn⟩
    have sameMembers : ∀ invoker, invoker ∈ [left, right] ↔ invoker ∈ [right, left] := by
      intro invoker
      rw [List.mem_pair, List.mem_pair, Or.comm]
    have answers := independent _ _ within sameMembers 0 0 position
    rw [selectForKey_last left 0 rightInside, selectForKey_last right 0 leftInside] at answers
    exact (Option.some.inj answers).symm
  · exact Apart.orderIndependent

end NetRpc.ConsistentHashSelector
