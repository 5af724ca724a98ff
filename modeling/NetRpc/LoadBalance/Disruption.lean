import NetRpc.Foundation.Ring
import NetRpc.LoadBalance.Strategy

/-! # What a change of the address list moves

A position that several addresses hash to belongs to the last of them in the
list. Without one of the addresses the ring differs only where that address
stood, so no key moves between the others.
-/

namespace NetRpc.ConsistentHashSelector

variable {Address : Type u} (hashing : Hashing Address)

/-- Where the virtual nodes of `invoker` stand. -/
def positions (replicaNumber : Nat) (invoker : Address) : List Nat :=
  (List.range (replicaNumber / 4)).flatMap fun i =>
    (List.range 4).map (hash (hashing.md5 (hashing.toString invoker ++ ascii (toString i))))

variable (replicaNumber : Nat)

theorem addInvoker_eq_foldl (ring : List (Nat × Address)) (invoker : Address) :
    addInvoker hashing replicaNumber ring invoker =
      (positions hashing replicaNumber invoker).foldl
        (fun ring position => SortedMap.assign position invoker ring) ring := by
  have grouped : addGroup hashing invoker = fun ring i =>
      ((List.range 4).map (hash (hashing.md5 (hashing.toString invoker ++
        ascii (toString i))))).foldl
          (fun ring position => SortedMap.assign position invoker ring) ring := by
    funext ring i
    rw [addGroup, List.foldl_map]
  rw [positions, List.foldl_flatMap, addInvoker, grouped]

theorem lookup_addInvoker (ring : List (Nat × Address)) (invoker : Address) (position : Nat) :
    (addInvoker hashing replicaNumber ring invoker).lookup position =
      if position ∈ positions hashing replicaNumber invoker then some invoker
      else ring.lookup position := by
  rw [addInvoker_eq_foldl, SortedMap.lookup_foldl_assign]

theorem strict_addInvoker {ring : List (Nat × Address)} (strict : SortedMap.Strict ring)
    (invoker : Address) :
    SortedMap.Strict (addInvoker hashing replicaNumber ring invoker) := by
  rw [addInvoker_eq_foldl]
  apply List.foldlRecOn (motive := SortedMap.Strict)
  · exact strict
  · intro ring strict position _
    exact strict.assign

theorem strict_create (invokers : List Address) (identityHashCode : UInt64) :
    SortedMap.Strict (create hashing invokers replicaNumber identityHashCode).virtualInvokers := by
  apply List.foldlRecOn (motive := SortedMap.Strict)
  · exact .nil
  · intro ring strict invoker _
    exact strict_addInvoker hashing replicaNumber strict invoker

/-- Without `leaving`, the ring is the same wherever `leaving` does not stand. -/
theorem lookup_foldl_filter [DecidableEq Address] {leaving : Address} (invokers : List Address)
    {before after : List (Nat × Address)}
    (unchanged : ∀ position, before.lookup position ≠ some leaving →
      after.lookup position = before.lookup position) (position : Nat) :
    (invokers.foldl (addInvoker hashing replicaNumber) before).lookup position ≠ some leaving →
    ((invokers.filter fun invoker => invoker ≠ leaving).foldl
        (addInvoker hashing replicaNumber) after).lookup position =
      (invokers.foldl (addInvoker hashing replicaNumber) before).lookup position := by
  induction invokers generalizing before after with
  | nil => exact unchanged position
  | cons invoker rest induction =>
      rw [List.foldl_cons]
      by_cases removed : invoker = leaving
      · rw [List.filter_cons_of_neg (by simpa using removed)]
        apply induction
        intro place stays
        rw [lookup_addInvoker] at stays ⊢
        by_cases covered : place ∈ positions hashing replicaNumber invoker
        · rw [if_pos covered, removed] at stays
          exact absurd rfl stays
        · rw [if_neg covered] at stays ⊢
          exact unchanged place stays
      · rw [List.filter_cons_of_pos (by simpa using removed), List.foldl_cons]
        apply induction
        intro place stays
        rw [lookup_addInvoker] at stays ⊢
        rw [lookup_addInvoker]
        by_cases covered : place ∈ positions hashing replicaNumber invoker
        · rw [if_pos covered, if_pos covered]
        · rw [if_neg covered] at stays
          rw [if_neg covered, if_neg covered]
          exact unchanged place stays

theorem selectForKey_eq_pick (selector : ConsistentHashSelector Address) (hashCode : Nat) :
    selector.selectForKey hashCode = Ring.pick hashCode selector.virtualInvokers := by
  rw [selectForKey, Ring.pick]
  cases SortedMap.lowerBound hashCode selector.virtualInvokers with
  | nil => rfl
  | cons => rfl

theorem selectForKey_eq_some_iff {selector : ConsistentHashSelector Address}
    (strict : SortedMap.Strict selector.virtualInvokers) {hashCode : Nat} {address : Address} :
    selector.selectForKey hashCode = some address ↔
      Ring.Serves (Ring.ownerIn selector.virtualInvokers) hashCode address := by
  rw [selectForKey_eq_pick, Ring.pick_eq_some_iff strict]

/-- Whoever is selected beside `leaving` is still selected without `leaving`. -/
theorem select_without [DecidableEq Address] (invokers : List Address) (leaving : Address)
    (identityHashCode identityHashCode' : UInt64) (rpcServiceKey : Bytes) {address : Address}
    (selected : (create hashing invokers 160 identityHashCode).select hashing rpcServiceKey =
      some address)
    (different : address ≠ leaving) :
    (create hashing (invokers.filter fun invoker => invoker ≠ leaving) 160
      identityHashCode').select hashing rpcServiceKey = some address := by
  rw [select, selectForKey_eq_some_iff (strict_create hashing 160 _ _)] at selected ⊢
  apply selected.of_leaving _ different
  intro position stays
  apply lookup_foldl_filter hashing 160 invokers _ position stays
  intro place _
  rfl

/-- A stand-in for MD5 under which addresses share some positions. -/
def frontHashing : Hashing Bytes where
  toString := id
  md5 text := ⟨(text ++ List.replicate 16 0).take 16, by simp⟩
  stringHash text := (text.getLastD 0).toUInt64

theorem select_without_second :
    (create frontHashing [ascii "x", ascii "z"] 160 1).select frontHashing (ascii "zz") =
      some (ascii "x") :=
  select_without frontHashing [ascii "x", ascii "y", ascii "z", ascii "y"] (ascii "y") 0 1
    (ascii "zz") (by decide +kernel) (by decide +kernel)

end NetRpc.ConsistentHashSelector
