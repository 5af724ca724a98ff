import NetRpc.Common.KeyMoves

/-! # The ring as a set of nodes

What a ring answers should depend on which nodes are live, and not on the way
it got them. It does as long as no two nodes have a position in common.
-/

namespace NetRpc.ConsistentHash

variable {hash : Bytes → UInt32} {ring : ConsistentHash} {nodeNum virtualNodeNum index : Int32}
  {operations : List Operation} {nodes : Set Int32}

/-- The operation names no other nodes. -/
def Operation.Within (nodeNum : Int32) (nodes : Set Int32) : Operation → Prop
  | .initializeNodes => ∀ i < nodeNum.toNatClampNeg, .ofNat i ∈ nodes
  | .addNewNode index => index ∈ nodes
  | .deleteNode index => index ∈ nodes

/-- No two nodes have a position in common. -/
def Apart (hash : Bytes → UInt32) (virtualNodeNum : Int32) (nodes : Set Int32) : Prop :=
  ∀ left ∈ nodes, ∀ right ∈ nodes, ∀ position ∈ positions hash virtualNodeNum left,
    position ∈ positions hash virtualNodeNum right → left = right

/-! ## Positions that stay occupied -/

theorem ownerIn_addNewNode_ne_none {position : Nat}
    (occupied : Ring.ownerIn ring.serverNodes position ≠ none ∨
      position ∈ positions hash ring.virtualNodeNum index) :
    Ring.ownerIn (ring.addNewNode hash index).serverNodes position ≠ none := by
  rw [ownerIn_addNewNode]
  split
  case isTrue => exact Option.some_ne_none _
  case isFalse outside =>
    rcases occupied with before | inside
    · exact before
    · exact absurd inside outside

theorem ownerIn_initializeNodes_ne_none {position : Nat}
    (occupied : Ring.ownerIn ring.serverNodes position ≠ none ∨
      ∃ i < ring.nodeNum.toNatClampNeg, position ∈ positions hash ring.virtualNodeNum (.ofNat i)) :
    Ring.ownerIn (ring.initializeNodes hash).serverNodes position ≠ none := by
  rw [initializeNodes]
  have added : Ring.ownerIn ring.serverNodes position ≠ none ∨
      ∃ i ∈ List.range ring.nodeNum.toNatClampNeg,
        position ∈ positions hash ring.virtualNodeNum (.ofNat i) := by
    simpa only [List.mem_range] using occupied
  generalize List.range ring.nodeNum.toNatClampNeg = indices at added ⊢
  clear occupied
  induction indices generalizing ring with
  | nil =>
      rcases added with before | ⟨i, member, _⟩
      · exact before
      · cases member
  | cons first rest induction =>
      have same : (ring.addNewNode hash (.ofNat first)).virtualNodeNum = ring.virtualNodeNum :=
        (sameNumbers_addNewNode ring _).2
      apply induction
      rw [same]
      rcases added with before | ⟨i, member, inside⟩
      · exact .inl (ownerIn_addNewNode_ne_none (.inl before))
      · rcases List.mem_cons.mp member with rfl | later
        · exact .inl (ownerIn_addNewNode_ne_none (.inr inside))
        · exact .inr ⟨i, later, inside⟩

/-! ## Live nodes keep their positions -/

theorem live_append_iff {operation : Operation} :
    Live nodeNum (operations ++ [operation]) index ↔
      operation.Adds nodeNum index ∨
        (Live nodeNum operations index ∧ operation ≠ .deleteNode index) := by
  constructor
  · intro live
    rcases live with ⟨earlier, added, later, split, adds, notDeleted⟩
    rcases List.eq_nil_or_concat later with rfl | ⟨later, last, rfl⟩
    · rcases List.append_inj' split rfl with ⟨_, last⟩
      cases last
      exact .inl adds
    · rw [List.concat_eq_append, ← List.cons_append, ← List.append_assoc] at split
      rcases List.append_inj' split rfl with ⟨rfl, same⟩
      cases same
      rw [List.concat_eq_append, List.mem_append, List.mem_singleton, not_or] at notDeleted
      exact .inr ⟨⟨earlier, added, later, rfl, adds, notDeleted.1⟩, Ne.symm notDeleted.2⟩
  · intro either
    rcases either with adds | ⟨live, kept⟩
    · exact live_of_adds adds operations
    · exact live.snoc kept

theorem Live.mem (live : Live nodeNum operations index)
    (within : ∀ operation ∈ operations, operation.Within nodeNum nodes) : index ∈ nodes := by
  rcases live with ⟨earlier, added, later, rfl, adds, _⟩
  have addedWithin := within added (List.mem_append_right _ List.mem_cons_self)
  cases added with
  | initializeNodes =>
      rcases adds with ⟨i, below, rfl⟩
      exact addedWithin i below
  | addNewNode added =>
      cases adds
      exact addedWithin
  | deleteNode => cases adds

/-- Every position of a live node is occupied. -/
def Seated (hash : Bytes → UInt32) (nodeNum virtualNodeNum : Int32)
    (operations : List Operation) (ring : ConsistentHash) : Prop :=
  ∀ index, Live nodeNum operations index →
    ∀ position ∈ positions hash virtualNodeNum index,
      Ring.ownerIn ring.serverNodes position ≠ none

theorem Seated.apply (apart : Apart hash virtualNodeNum nodes) {operation : Operation}
    (within : ∀ operation ∈ operations, operation.Within nodeNum nodes)
    (operationWithin : operation.Within nodeNum nodes)
    (seated : Seated hash nodeNum virtualNodeNum operations ring)
    (same : SameNumbers (create nodeNum virtualNodeNum) ring) :
    Seated hash nodeNum virtualNodeNum (operations ++ [operation])
      (ring.apply hash operation) := by
  rcases same with ⟨rfl, rfl⟩
  intro index live position inside
  rw [live_append_iff] at live
  cases operation with
  | initializeNodes =>
      apply ownerIn_initializeNodes_ne_none
      rcases live with ⟨i, below, rfl⟩ | ⟨before, _⟩
      · exact .inr ⟨i, below, inside⟩
      · exact .inl (seated index before position inside)
  | addNewNode added =>
      apply ownerIn_addNewNode_ne_none
      rcases live with rfl | ⟨before, _⟩
      · exact .inr inside
      · exact .inl (seated index before position inside)
  | deleteNode deleted =>
      rcases live with impossible | ⟨before, kept⟩
      · cases impossible
      · -- A position of the deleted node is none of a live one.
        have outside : position ∉
            { position | position ∈ positions hash ring.virtualNodeNum deleted } := by
          intro erased
          have node :=
            apart index (before.mem within) deleted operationWithin position inside erased
          rw [node] at kept
          exact kept rfl
        rw [apply, ownerIn_deleteNode, Ring.without_of_notMem outside]
        exact seated index before position inside

theorem reached_seated (apart : Apart hash virtualNodeNum nodes)
    (within : ∀ operation ∈ operations, operation.Within nodeNum nodes) :
    Seated hash nodeNum virtualNodeNum operations
      (reached hash nodeNum virtualNodeNum operations) := by
  induction operations using List.reverseRecOn with
  | nil =>
      intro index live
      rcases live with ⟨earlier, operation, later, split, _⟩
      cases earlier <;> cases split
  | append_singleton operations operation induction =>
      rw [List.forall_mem_append, List.forall_mem_singleton] at within
      have same : SameNumbers (create nodeNum virtualNodeNum)
          (reached hash nodeNum virtualNodeNum operations) := sameNumbers_reached _ _ _
      rw [reached, List.foldl_append]
      exact (induction within.1).apply apart within.1 within.2 same

/-- Where no two nodes collide, every live node owns all of its positions, and
nobody owns any other. -/
theorem ownerIn_reached_eq_some_iff (apart : Apart hash virtualNodeNum nodes)
    (within : ∀ operation ∈ operations, operation.Within nodeNum nodes) {position : Nat}
    {node : UInt64} :
    Ring.ownerIn (reached hash nodeNum virtualNodeNum operations).serverNodes position =
        some node ↔
      ∃ index, Live nodeNum operations index ∧ node = toSize index ∧
        position ∈ positions hash virtualNodeNum index := by
  have housed := reached_housed hash nodeNum virtualNodeNum operations
  constructor
  · intro owned
    rcases housed (position, node) ((mem_iff_ownerIn _).mp owned) with ⟨index, live, belongs⟩
    exact ⟨index, live, belongs⟩
  · intro seated
    rcases seated with ⟨index, live, rfl, inside⟩
    have occupied := reached_seated apart within index live position inside
    rcases Option.ne_none_iff_exists'.mp occupied with ⟨node, owned⟩
    rcases housed (position, node) ((mem_iff_ownerIn _).mp owned) with
      ⟨other, otherLive, rfl, otherInside⟩
    have same := apart index (live.mem within) other (otherLive.mem within) position inside
      otherInside
    rw [owned, same]

/-! ## What a ring answers -/

def SameLive (nodeNum : Int32) (operations operations' : List Operation) : Prop :=
  ∀ index, Live nodeNum operations index ↔ Live nodeNum operations' index

/-- Histories with the same live nodes lead to rings that answer every key alike. -/
def Determined (hash : Bytes → UInt32) (nodeNum virtualNodeNum : Int32) (nodes : Set Int32) :
    Prop :=
  ∀ operations operations', (∀ operation ∈ operations, operation.Within nodeNum nodes) →
    (∀ operation ∈ operations', operation.Within nodeNum nodes) →
    SameLive nodeNum operations operations' →
    ∀ key, (reached hash nodeNum virtualNodeNum operations).getServerIndex hash key =
      (reached hash nodeNum virtualNodeNum operations').getServerIndex hash key

theorem Apart.determined (apart : Apart hash virtualNodeNum nodes) :
    Determined hash nodeNum virtualNodeNum nodes := by
  intro operations operations' within within' sameLive key
  apply Ring.pick_congr (ordered _) (ordered _)
  funext position
  apply Option.ext
  intro node
  rw [ownerIn_reached_eq_some_iff apart within, ownerIn_reached_eq_some_iff apart within']
  simp only [sameLive _]

theorem live_pair_iff (left right : Int32) :
    Live nodeNum [.addNewNode left, .addNewNode right] index ↔ index = left ∨ index = right := by
  have empty : ¬Live nodeNum [] index := by
    intro live
    rcases live with ⟨earlier, operation, later, split, _⟩
    cases earlier <;> cases split
  have pair : [Operation.addNewNode left, .addNewNode right] =
      ([] ++ [.addNewNode left]) ++ [.addNewNode right] := rfl
  rw [pair, live_append_iff, live_append_iff]
  simp only [Operation.Adds, empty, or_false, ne_eq, reduceCtorEq, not_false_eq_true,
    and_true]
  exact Or.comm

/-- A position goes to the node that claims it first. -/
theorem getServerIndex_first {first : Int32} (second : Int32) {key : Bytes}
    (inside : (hash key).toNat ∈ positions hash virtualNodeNum first) :
    (reached hash nodeNum virtualNodeNum [.addNewNode first, .addNewNode second]).getServerIndex
      hash key = some (toSize first) := by
  let alone := (create nodeNum virtualNodeNum).addNewNode hash first
  have owned : Ring.ownerIn alone.serverNodes (hash key).toNat = some (toSize first) := by
    rw [ownerIn_addNewNode, if_pos]
    · rfl
    · exact inside
  have kept : Ring.ownerIn (alone.addNewNode hash second).serverNodes (hash key).toNat =
      some (toSize first) := by
    rw [ownerIn_addNewNode, owned, Option.getD_some, ite_self]
  exact Ring.pick_of_ownerIn (ordered _) kept

/-- What a ring answers depends on its live nodes alone, exactly if no two nodes
have a position in common. -/
theorem determined_iff (hash : Bytes → UInt32) (nodeNum virtualNodeNum : Int32)
    (nodes : Set Int32) :
    Determined hash nodeNum virtualNodeNum nodes ↔ Apart hash virtualNodeNum nodes := by
  constructor
  · intro determined left leftIn right rightIn position leftInside rightInside
    rcases List.mem_map.mp leftInside with ⟨j, _, rfl⟩
    have within : ∀ first ∈ nodes, ∀ second ∈ nodes,
        ∀ operation ∈ [Operation.addNewNode first, .addNewNode second],
          operation.Within nodeNum nodes := by
      intro first firstIn second secondIn
      rw [List.forall_mem_cons, List.forall_mem_singleton]
      exact ⟨firstIn, secondIn⟩
    have sameLive : SameLive nodeNum [.addNewNode left, .addNewNode right]
        [.addNewNode right, .addNewNode left] := by
      intro index
      rw [live_pair_iff, live_pair_iff, Or.comm]
    have answers := determined _ _ (within left leftIn right rightIn)
      (within right rightIn left leftIn) sameLive (nodeKey left j)
    rw [getServerIndex_first right leftInside, getServerIndex_first left rightInside] at answers
    exact toSize_injective (Option.some.inj answers)
  · exact Apart.determined

end NetRpc.ConsistentHash
