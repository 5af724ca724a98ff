import NetRpc.Common.CString
import NetRpc.Common.MurmurHash
import NetRpc.Foundation.Ring

/-! # Consistent hashing

A node stands on the ring wherever one of its virtual nodes hashes to. A
position that is taken stays with the node that came first, and a node that is
deleted takes away whatever stands at its positions.
-/

namespace NetRpc

structure ConsistentHash where
  serverNodes : List (Nat × UInt64)
  ordered : SortedMap.Strict serverNodes
  nodeNum : Int32
  virtualNodeNum : Int32

namespace ConsistentHash

/-- The constructor. -/
def create (nodeNum virtualNodeNum : Int32) : ConsistentHash where
  serverNodes := []
  ordered := .nil
  nodeNum := nodeNum
  virtualNodeNum := virtualNodeNum

/-- An `int` as the `size_t` that the ring stores. -/
def toSize (index : Int32) : UInt64 :=
  index.toInt64.toUInt64

def nodeKey (index : Int32) (j : Nat) : Bytes :=
  ascii "SHARD-" ++ decimal index.toInt ++ ascii "-NODE-" ++ decimal j

def insert (partition : Nat) (index : UInt64) (ring : ConsistentHash) : ConsistentHash :=
  { ring with
    serverNodes := SortedMap.insert partition index ring.serverNodes
    ordered := ring.ordered.insert }

def erase (partition : Nat) (ring : ConsistentHash) : ConsistentHash :=
  { ring with
    serverNodes := SortedMap.erase partition ring.serverNodes
    ordered := ring.ordered.erase partition }

section Operations

/-! The hash function is a parameter, which is `murmur3_32` in the source. -/

variable (hash : Bytes → UInt32)

def partition (index : Int32) (j : Nat) : Nat :=
  (hash (nodeKey index j)).toNat

def addNewNode (index : Int32) (ring : ConsistentHash) : ConsistentHash :=
  (List.range ring.virtualNodeNum.toNatClampNeg).foldl
    (fun ring j => ring.insert (partition hash index j) (toSize index)) ring

/-- `Initialize`, whose inner loop is the one of `AddNewNode`. -/
def initializeNodes (ring : ConsistentHash) : ConsistentHash :=
  (List.range ring.nodeNum.toNatClampNeg).foldl
    (fun ring i => ring.addNewNode hash (.ofNat i)) ring

def deleteNode (index : Int32) (ring : ConsistentHash) : ConsistentHash :=
  (List.range ring.virtualNodeNum.toNatClampNeg).foldl
    (fun ring j => ring.erase (partition hash index j)) ring

/-- `key` is the text in front of the terminator. The result is `none` on an
empty ring, where the source dereferences `end()`. -/
def getServerIndex (key : Bytes) (ring : ConsistentHash) : Option UInt64 :=
  Ring.pick (hash key).toNat ring.serverNodes

inductive Operation
  | initializeNodes
  | addNewNode (index : Int32)
  | deleteNode (index : Int32)
deriving DecidableEq

def apply (ring : ConsistentHash) : Operation → ConsistentHash
  | .initializeNodes => ring.initializeNodes hash
  | .addNewNode index => ring.addNewNode hash index
  | .deleteNode index => ring.deleteNode hash index

/-- The ring after a sequence of operations. -/
def reached (nodeNum virtualNodeNum : Int32) (operations : List Operation) : ConsistentHash :=
  operations.foldl (apply hash) (create nodeNum virtualNodeNum)

end Operations

/-- The positions of the virtual nodes of `index`. -/
def positions (hash : Bytes → UInt32) (virtualNodeNum index : Int32) : List Nat :=
  (List.range virtualNodeNum.toNatClampNeg).map (partition hash index)

def Operation.Adds (nodeNum : Int32) (index : Int32) : Operation → Prop
  | .initializeNodes => ∃ i < nodeNum.toNatClampNeg, index = .ofNat i
  | .addNewNode added => index = added
  | .deleteNode _ => False

/-- `index` has been added, and not been deleted since. -/
def Live (nodeNum : Int32) (operations : List Operation) (index : Int32) : Prop :=
  ∃ earlier operation later, operations = earlier ++ operation :: later ∧
    operation.Adds nodeNum index ∧ .deleteNode index ∉ later

/-- The ring tells all nodes apart. -/
theorem toSize_injective : Function.Injective toSize := by
  intro left right same
  have wide := congrArg UInt64.toInt64 same
  rw [toSize, toSize, Int64.toInt64_toUInt64, Int64.toInt64_toUInt64] at wide
  have value := congrArg Int64.toInt wide
  rw [Int32.toInt_toInt64, Int32.toInt_toInt64] at value
  exact Int32.toInt_inj.mp value

/-! ## What the operations change -/

variable {hash : Bytes → UInt32} {ring : ConsistentHash} {index : Int32}

theorem addNewNode_eq_foldl :
    ring.addNewNode hash index =
      (positions hash ring.virtualNodeNum index).foldl
        (fun ring place => ring.insert place (toSize index)) ring := by
  rw [positions, List.foldl_map, addNewNode]

theorem deleteNode_eq_foldl :
    ring.deleteNode hash index =
      (positions hash ring.virtualNodeNum index).foldl (fun ring place => ring.erase place)
        ring := by
  rw [positions, List.foldl_map, deleteNode]

/-- The two numbers that the constructor is given never change. -/
def SameNumbers (before after : ConsistentHash) : Prop :=
  after.nodeNum = before.nodeNum ∧ after.virtualNodeNum = before.virtualNodeNum

theorem sameNumbers_foldl {Item : Type u} (step : ConsistentHash → Item → ConsistentHash)
    (same : ∀ ring item, SameNumbers ring (step ring item)) (items : List Item)
    (ring : ConsistentHash) : SameNumbers ring (items.foldl step ring) := by
  induction items generalizing ring with
  | nil => exact ⟨rfl, rfl⟩
  | cons item rest induction =>
      have first := same ring item
      have later := induction (step ring item)
      exact ⟨later.1.trans first.1, later.2.trans first.2⟩

theorem sameNumbers_addNewNode (ring : ConsistentHash) (index : Int32) :
    SameNumbers ring (ring.addNewNode hash index) :=
  sameNumbers_foldl (fun ring j => ring.insert (partition hash index j) (toSize index))
    (fun _ _ => ⟨rfl, rfl⟩) _ ring

theorem sameNumbers_apply (ring : ConsistentHash) (operation : Operation) :
    SameNumbers ring (ring.apply hash operation) := by
  cases operation with
  | initializeNodes =>
      exact sameNumbers_foldl _ (fun ring i => sameNumbers_addNewNode ring (.ofNat i)) _ ring
  | addNewNode index => exact sameNumbers_addNewNode ring index
  | deleteNode index =>
      exact sameNumbers_foldl (fun ring j => ring.erase (partition hash index j))
        (fun _ _ => ⟨rfl, rfl⟩) _ ring

theorem sameNumbers_reached (nodeNum virtualNodeNum : Int32) (operations : List Operation) :
    SameNumbers (create nodeNum virtualNodeNum)
      (reached hash nodeNum virtualNodeNum operations) :=
  sameNumbers_foldl _ sameNumbers_apply operations _

/-- A node that is added gets the positions that are free. -/
theorem ownerIn_foldl_insert (node : UInt64) (places : List Nat) (ring : ConsistentHash)
    (position : Nat) :
    Ring.ownerIn (places.foldl (fun ring place => ring.insert place node) ring).serverNodes
        position =
      if position ∈ places then some ((Ring.ownerIn ring.serverNodes position).getD node)
      else Ring.ownerIn ring.serverNodes position := by
  apply SortedMap.find_foldl (fun ring : ConsistentHash => Ring.ownerIn ring.serverNodes position)
    fun found => some (found.getD node)
  · intro ring place
    have inserted : Ring.ownerIn (ring.insert place node).serverNodes position =
        if position = place then some ((Ring.ownerIn ring.serverNodes place).getD node)
        else Ring.ownerIn ring.serverNodes position :=
      ring.ordered.lookup_insert position
    rw [inserted]
    split
    case isTrue here => rw [here]
    case isFalse => rfl
  · exact fun _ => rfl

theorem ownerIn_foldl_erase (places : List Nat) (ring : ConsistentHash) :
    Ring.ownerIn (places.foldl (fun ring place => ring.erase place) ring).serverNodes =
      Ring.without (Ring.ownerIn ring.serverNodes) { position | position ∈ places } := by
  funext position
  have erased : Ring.ownerIn (places.foldl (fun ring place => ring.erase place) ring).serverNodes
      position = if position ∈ places then none else Ring.ownerIn ring.serverNodes position := by
    apply SortedMap.find_foldl (fun ring : ConsistentHash => Ring.ownerIn ring.serverNodes position)
      fun _ => none
    · exact fun ring place => ring.ordered.lookup_erase place position
    · exact fun _ => rfl
  rw [erased]
  split
  case isTrue inside =>
    symm
    apply Ring.without_of_mem
    exact inside
  case isFalse outside =>
    symm
    apply Ring.without_of_notMem
    exact outside

end ConsistentHash

end NetRpc
