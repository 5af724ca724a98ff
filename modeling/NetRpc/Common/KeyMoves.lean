import NetRpc.Common.ConsistentHash
import Mathlib.Data.List.Induction

/-! # Which keys a change of the nodes moves

Every virtual node stands at a position of its own node, so deleting a node
leaves none of it behind. Adding a node moves keys to that node alone. Deleting
a node erases by position, and so may take away what another node owns there.
-/

namespace NetRpc.ConsistentHash

variable {hash : Bytes → UInt32} {ring : ConsistentHash} {nodeNum virtualNodeNum index : Int32}
  {operations : List Operation}

/-! ## Live nodes -/

theorem Live.snoc {operation : Operation} (live : Live nodeNum operations index)
    (kept : operation ≠ .deleteNode index) : Live nodeNum (operations ++ [operation]) index := by
  rcases live with ⟨earlier, added, later, rfl, adds, notDeleted⟩
  refine ⟨earlier, added, later ++ [operation], ?_, adds, ?_⟩
  · rw [List.append_assoc, List.cons_append]
  · rw [List.mem_append, List.mem_singleton, not_or]
    exact ⟨notDeleted, Ne.symm kept⟩

theorem live_of_adds {operation : Operation} (adds : operation.Adds nodeNum index)
    (operations : List Operation) : Live nodeNum (operations ++ [operation]) index :=
  ⟨operations, operation, [], rfl, adds, List.not_mem_nil⟩

/-! ## Where the virtual nodes stand -/

/-- A virtual node of `index`, at one of the positions of `index`. -/
def Belongs (hash : Bytes → UInt32) (virtualNodeNum index : Int32) (entry : Nat × UInt64) :
    Prop :=
  entry.2 = toSize index ∧ entry.1 ∈ positions hash virtualNodeNum index

theorem mem_foldl_insert {node : UInt64} {places : List Nat} {entry : Nat × UInt64}
    (member : entry ∈
      (places.foldl (fun ring place => ring.insert place node) ring).serverNodes) :
    entry ∈ ring.serverNodes ∨ (entry.2 = node ∧ entry.1 ∈ places) := by
  induction places generalizing ring with
  | nil => exact .inl member
  | cons place rest induction =>
      rcases induction member with inserted | ⟨owned, later⟩
      · rcases SortedMap.eq_or_mem_of_mem_insert inserted with rfl | before
        · exact .inr ⟨rfl, List.mem_cons_self⟩
        · exact .inl before
      · exact .inr ⟨owned, List.mem_cons_of_mem _ later⟩

theorem mem_addNewNode {entry : Nat × UInt64}
    (member : entry ∈ (ring.addNewNode hash index).serverNodes) :
    entry ∈ ring.serverNodes ∨ Belongs hash ring.virtualNodeNum index entry := by
  rw [addNewNode_eq_foldl] at member
  exact mem_foldl_insert member

theorem mem_initializeNodes {entry : Nat × UInt64}
    (member : entry ∈ (ring.initializeNodes hash).serverNodes) :
    entry ∈ ring.serverNodes ∨
      ∃ i < ring.nodeNum.toNatClampNeg, Belongs hash ring.virtualNodeNum (.ofNat i) entry := by
  rw [initializeNodes] at member
  have bounded : ∀ i ∈ List.range ring.nodeNum.toNatClampNeg, i < ring.nodeNum.toNatClampNeg :=
    fun i => List.mem_range.mp
  generalize List.range ring.nodeNum.toNatClampNeg = indices at member bounded
  generalize ring.nodeNum.toNatClampNeg = bound at bounded ⊢
  induction indices generalizing ring with
  | nil => exact .inl member
  | cons first rest induction =>
      rw [List.forall_mem_cons] at bounded
      have same : (ring.addNewNode hash (.ofNat first)).virtualNodeNum = ring.virtualNodeNum :=
        (sameNumbers_addNewNode ring _).2
      rcases induction member bounded.2 with added | ⟨i, below, belongs⟩
      · rcases mem_addNewNode added with before | belongs
        · exact .inl before
        · exact .inr ⟨first, bounded.1, belongs⟩
      · rw [same] at belongs
        exact .inr ⟨i, below, belongs⟩

theorem ownerIn_deleteNode :
    Ring.ownerIn (ring.deleteNode hash index).serverNodes =
      Ring.without (Ring.ownerIn ring.serverNodes)
        { position | position ∈ positions hash ring.virtualNodeNum index } := by
  rw [deleteNode_eq_foldl, ownerIn_foldl_erase]

theorem mem_iff_ownerIn (ring : ConsistentHash) {entry : Nat × UInt64} :
    Ring.ownerIn ring.serverNodes entry.1 = some entry.2 ↔ entry ∈ ring.serverNodes :=
  ring.ordered.lookup_eq_some_iff

theorem mem_deleteNode {entry : Nat × UInt64} :
    entry ∈ (ring.deleteNode hash index).serverNodes ↔
      entry ∈ ring.serverNodes ∧ entry.1 ∉ positions hash ring.virtualNodeNum index := by
  rw [← (ring.deleteNode hash index).mem_iff_ownerIn, ← ring.mem_iff_ownerIn, ownerIn_deleteNode]
  by_cases erased : entry.1 ∈ { position | position ∈ positions hash ring.virtualNodeNum index }
  · rw [Ring.without_of_mem erased]
    rw [Set.mem_ofPred_eq] at erased
    simp [erased]
  · rw [Ring.without_of_notMem erased]
    rw [Set.mem_ofPred_eq] at erased
    simp [erased]

/-- Every virtual node belongs to a live node. -/
def Housed (hash : Bytes → UInt32) (nodeNum virtualNodeNum : Int32)
    (operations : List Operation) (ring : ConsistentHash) : Prop :=
  ∀ entry ∈ ring.serverNodes, ∃ index, Live nodeNum operations index ∧
    Belongs hash virtualNodeNum index entry

theorem Housed.apply (housed : Housed hash nodeNum virtualNodeNum operations ring)
    (same : SameNumbers (create nodeNum virtualNodeNum) ring) (operation : Operation) :
    Housed hash nodeNum virtualNodeNum (operations ++ [operation])
      (ring.apply hash operation) := by
  rcases same with ⟨rfl, rfl⟩
  intro entry member
  cases operation with
  | initializeNodes =>
      rcases mem_initializeNodes member with before | ⟨i, below, belongs⟩
      · rcases housed entry before with ⟨index, live, belongs⟩
        exact ⟨index, live.snoc Operation.noConfusion, belongs⟩
      · have adds : Operation.initializeNodes.Adds ring.nodeNum (.ofNat i) := ⟨i, below, rfl⟩
        exact ⟨.ofNat i, live_of_adds adds operations, belongs⟩
  | addNewNode added =>
      rcases mem_addNewNode member with before | belongs
      · rcases housed entry before with ⟨index, live, belongs⟩
        exact ⟨index, live.snoc Operation.noConfusion, belongs⟩
      · have adds : (Operation.addNewNode added).Adds ring.nodeNum added := rfl
        exact ⟨added, live_of_adds adds operations, belongs⟩
  | deleteNode deleted =>
      rcases mem_deleteNode.mp member with ⟨before, notErased⟩
      rcases housed entry before with ⟨index, live, belongs⟩
      refine ⟨index, live.snoc ?_, belongs⟩
      rintro ⟨⟩
      exact notErased belongs.2

theorem reached_housed (hash : Bytes → UInt32) (nodeNum virtualNodeNum : Int32)
    (operations : List Operation) :
    Housed hash nodeNum virtualNodeNum operations
      (reached hash nodeNum virtualNodeNum operations) := by
  induction operations using List.reverseRecOn with
  | nil =>
      intro entry member
      cases member
  | append_singleton operations operation induction =>
      have same : SameNumbers (create nodeNum virtualNodeNum)
          (reached hash nodeNum virtualNodeNum operations) := sameNumbers_reached _ _ _
      rw [reached, List.foldl_append]
      exact induction.apply same operation

theorem getServerIndex_eq_some_iff {key : Bytes} {node : UInt64} :
    ring.getServerIndex hash key = some node ↔
      Ring.Serves (Ring.ownerIn ring.serverNodes) (hash key).toNat node :=
  Ring.pick_eq_some_iff ring.ordered

theorem exists_getServerIndex (hash : Bytes → UInt32) (nonempty : ring.serverNodes ≠ [])
    (key : Bytes) : ∃ node, ring.getServerIndex hash key = some node := by
  apply Option.ne_none_iff_exists'.mp
  rw [getServerIndex, ne_eq, Ring.pick_eq_none_iff]
  exact nonempty

/-- Only live nodes stand on the ring, and only live nodes are chosen. -/
theorem reached_live (hash : Bytes → UInt32) (nodeNum virtualNodeNum : Int32)
    (operations : List Operation) :
    (∀ entry ∈ (reached hash nodeNum virtualNodeNum operations).serverNodes,
      ∃ index, Live nodeNum operations index ∧ entry.2 = toSize index) ∧
    ∀ key, (reached hash nodeNum virtualNodeNum operations).serverNodes ≠ [] →
      ∃ index, Live nodeNum operations index ∧
        (reached hash nodeNum virtualNodeNum operations).getServerIndex hash key =
          some (toSize index) := by
  have housed := reached_housed hash nodeNum virtualNodeNum operations
  constructor
  · intro entry member
    rcases housed entry member with ⟨index, live, belongs⟩
    exact ⟨index, live, belongs.1⟩
  · intro key nonempty
    rcases exists_getServerIndex hash nonempty key with ⟨node, chosen⟩
    rcases (getServerIndex_eq_some_iff.mp chosen).mem with ⟨position, member⟩
    rcases housed _ member with ⟨index, live, owned, _⟩
    refine ⟨index, live, ?_⟩
    rw [chosen, ← owned]

/-- A ring on which two nodes have had the same position. -/
def collidingOperations : List Operation :=
  [.initializeNodes, .addNewNode 18862, .addNewNode 225852]

theorem reached_live_colliding :
    ∃ index, Live 1 (collidingOperations ++ [.deleteNode 0]) index ∧
      (reached Murmur.murmur3_32 1 1 (collidingOperations ++ [.deleteNode 0])).getServerIndex
        Murmur.murmur3_32 (ascii "key") = some (toSize index) :=
  (reached_live Murmur.murmur3_32 1 1 (collidingOperations ++ [.deleteNode 0])).2 (ascii "key")
    (by decide +kernel)

/-! ## Adding a node -/

theorem ownerIn_addNewNode (position : Nat) :
    Ring.ownerIn (ring.addNewNode hash index).serverNodes position =
      if position ∈ positions hash ring.virtualNodeNum index then
        some ((Ring.ownerIn ring.serverNodes position).getD (toSize index))
      else Ring.ownerIn ring.serverNodes position := by
  rw [addNewNode_eq_foldl, ownerIn_foldl_insert]

theorem addNewNode_ne_nil (nonempty : ring.serverNodes ≠ []) :
    (ring.addNewNode hash index).serverNodes ≠ [] := by
  rcases List.exists_mem_of_ne_nil _ nonempty with ⟨entry, member⟩
  have kept : Ring.ownerIn (ring.addNewNode hash index).serverNodes entry.1 = some entry.2 := by
    rw [ownerIn_addNewNode, ring.mem_iff_ownerIn.mpr member, Option.getD_some, ite_self]
  exact List.ne_nil_of_mem ((mem_iff_ownerIn _).mp kept)

/-- A key that the new node does not take stays where it was. -/
theorem getServerIndex_of_addNewNode {key : Bytes} {node : UInt64}
    (chosen : (ring.addNewNode hash index).getServerIndex hash key = some node)
    (different : node ≠ toSize index) : ring.getServerIndex hash key = some node := by
  rw [getServerIndex_eq_some_iff] at chosen ⊢
  apply chosen.of_leaving _ different
  intro position stays
  rw [ownerIn_addNewNode] at stays ⊢
  split
  case isFalse => rfl
  case isTrue new =>
    rw [if_pos new] at stays
    cases before : Ring.ownerIn ring.serverNodes position with
    | none =>
        rw [before] at stays
        exact absurd rfl stays
    | some => rfl

/-- Adding a node moves keys to that node only. -/
theorem getServerIndex_addNewNode (hash : Bytes → UInt32) (nodeNum virtualNodeNum : Int32)
    (operations : List Operation)
    (nonempty : (reached hash nodeNum virtualNodeNum operations).serverNodes ≠ [])
    (index : Int32) (key : Bytes) :
    ∃ before after,
      (reached hash nodeNum virtualNodeNum operations).getServerIndex hash key = some before ∧
      ((reached hash nodeNum virtualNodeNum operations).addNewNode hash index).getServerIndex
        hash key = some after ∧
      (after = before ∨ after = toSize index) := by
  rcases exists_getServerIndex hash nonempty key with ⟨before, chosenBefore⟩
  rcases exists_getServerIndex hash (addNewNode_ne_nil nonempty) key with ⟨after, chosenAfter⟩
  refine ⟨before, after, chosenBefore, chosenAfter, ?_⟩
  by_cases taken : after = toSize index
  · exact .inr taken
  · have stayed := getServerIndex_of_addNewNode chosenAfter taken
    rw [chosenBefore] at stayed
    exact .inl (Option.some.inj stayed).symm

theorem getServerIndex_addNewNode_colliding :
    ∃ before after,
      (reached Murmur.murmur3_32 1 1 collidingOperations).getServerIndex Murmur.murmur3_32
        (ascii "key") = some before ∧
      ((reached Murmur.murmur3_32 1 1 collidingOperations).addNewNode Murmur.murmur3_32
        7).getServerIndex Murmur.murmur3_32 (ascii "key") = some after ∧
      (after = before ∨ after = toSize 7) :=
  getServerIndex_addNewNode Murmur.murmur3_32 1 1 collidingOperations (by decide +kernel) 7
    (ascii "key")

/-! ## Deleting a node -/

/-- Where the virtual node that `partition` meets stands at a position of
`index`, the next one that does not is a virtual node of the same `node`. -/
def Spared (hash : Bytes → UInt32) (ring : ConsistentHash) (index : Int32) (partition : Nat)
    (node : UInt64) : Prop :=
  ∀ position, Ring.Next (Ring.occupied (Ring.ownerIn ring.serverNodes)) partition position →
    position ∈ positions hash ring.virtualNodeNum index →
    ∃ next, Ring.Next { other | Ring.ownerIn ring.serverNodes other ≠ none ∧
        other ∉ positions hash ring.virtualNodeNum index } partition next ∧
      Ring.ownerIn ring.serverNodes next = some node

theorem getServerIndex_deleteNode_iff {key : Bytes} {node : UInt64}
    (chosen : ring.getServerIndex hash key = some node) :
    (ring.deleteNode hash index).getServerIndex hash key = some node ↔
      Spared hash ring index (hash key).toNat node := by
  rw [getServerIndex_eq_some_iff] at chosen ⊢
  rw [ownerIn_deleteNode]
  exact Ring.serves_without_iff chosen

/-- The nodes that have a virtual node on the ring. -/
def nodes (ring : ConsistentHash) : List UInt64 :=
  ring.serverNodes.map Prod.snd

theorem mem_nodes_deleteNode_iff {node : UInt64} :
    node ∈ (ring.deleteNode hash index).nodes ↔
      ∃ position, (position, node) ∈ ring.serverNodes ∧
        position ∉ positions hash ring.virtualNodeNum index := by
  rw [nodes, List.mem_map]
  constructor
  · rintro ⟨⟨position, owner⟩, member, rfl⟩
    exact ⟨position, mem_deleteNode.mp member⟩
  · rintro ⟨position, member⟩
    exact ⟨(position, node), mem_deleteNode.mpr member, rfl⟩

/-- A key stays with its node exactly if the virtual node that it meets is not
at a shared position, or the next one that is not is of the same node. A node
keeps a virtual node exactly if it has one that is not at a shared position. -/
theorem deleteNode_keeps_iff (hash : Bytes → UInt32) (nodeNum virtualNodeNum : Int32)
    (operations : List Operation) (index : Int32) (node : UInt64) :
    (∀ key,
      (reached hash nodeNum virtualNodeNum operations).getServerIndex hash key = some node →
      (((reached hash nodeNum virtualNodeNum operations).deleteNode hash index).getServerIndex
          hash key = some node ↔
        Spared hash (reached hash nodeNum virtualNodeNum operations) index (hash key).toNat
          node)) ∧
    (node ∈ ((reached hash nodeNum virtualNodeNum operations).deleteNode hash index).nodes ↔
      ∃ position,
        (position, node) ∈ (reached hash nodeNum virtualNodeNum operations).serverNodes ∧
        position ∉ positions hash virtualNodeNum index) := by
  have same : SameNumbers (create nodeNum virtualNodeNum)
      (reached hash nodeNum virtualNodeNum operations) := sameNumbers_reached _ _ _
  constructor
  · intro key chosen
    exact getServerIndex_deleteNode_iff chosen
  · rw [mem_nodes_deleteNode_iff, same.2]
    rfl

theorem deleteNode_keeps_iff_colliding :
    ((reached Murmur.murmur3_32 1 1 collidingOperations).deleteNode Murmur.murmur3_32
        225852).getServerIndex Murmur.murmur3_32 (ascii "SHARD-0-NODE-0") = some 0 ↔
      Spared Murmur.murmur3_32 (reached Murmur.murmur3_32 1 1 collidingOperations) 225852
        (Murmur.murmur3_32 (ascii "SHARD-0-NODE-0")).toNat 0 :=
  (deleteNode_keeps_iff Murmur.murmur3_32 1 1 collidingOperations 225852 0).1
    (ascii "SHARD-0-NODE-0") (by decide +kernel)

/-- The node 18862 stands at the one position of 225852, and is still live
when 225852 takes it away. -/
theorem deleteNode_takes_other :
    Live 1 (collidingOperations ++ [.deleteNode 225852]) 18862 ∧
      (reached Murmur.murmur3_32 1 1 collidingOperations).getServerIndex Murmur.murmur3_32
        (ascii "SHARD-18862-NODE-0") = some (toSize 18862) ∧
      ((reached Murmur.murmur3_32 1 1 collidingOperations).deleteNode Murmur.murmur3_32
        225852).getServerIndex Murmur.murmur3_32 (ascii "SHARD-18862-NODE-0") = some 0 ∧
      toSize 18862 ∈ (reached Murmur.murmur3_32 1 1 collidingOperations).nodes ∧
      toSize 18862 ∉ ((reached Murmur.murmur3_32 1 1 collidingOperations).deleteNode
        Murmur.murmur3_32 225852).nodes := by
  refine ⟨⟨[.initializeNodes], .addNewNode 18862, [.addNewNode 225852, .deleteNode 225852], rfl,
    rfl, by decide⟩, ?_⟩
  decide +kernel

end NetRpc.ConsistentHash
