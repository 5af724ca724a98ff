import NetRpc.Coder.Protocol
import NetRpc.Foundation.SortedMap
import Mathlib.Data.Nat.Basic

/-! # Load balancing

The three strategies that choose one of a list of addresses. Hashing rests on
MD5 and on `std::hash`, which are parameters.
-/

namespace NetRpc

/-- What `MD5::digest` returns where no state word has a zero byte at its top. -/
abbrev Digest := { digest : Bytes // digest.length = 16 }

structure Hashing (Address : Type u) where
  toString : Address → Bytes
  md5 : Bytes → Digest
  stringHash : Bytes → UInt64

/-- Stand-ins for MD5 and `std::hash`, for examples that no digest decides. -/
def lastByteHashing : Hashing Bytes where
  toString := id
  md5 _ := ⟨List.replicate 16 0, rfl⟩
  stringHash text := (text.getLastD 0).toUInt64

structure ConsistentHashSelector (Address : Type u) where
  virtualInvokers : List (Nat × Address)
  identityHashCode : Int32

namespace ConsistentHashSelector

variable {Address : Type u} (hashing : Hashing Address)

/-- Four bytes of the digest, the last of them as the most significant. -/
def hash (digest : Digest) (number : Nat) : Nat :=
  ((digest.val.getD (3 + number * 4) 0).toNat <<< 24 |||
    (digest.val.getD (2 + number * 4) 0).toNat <<< 16 |||
    (digest.val.getD (1 + number * 4) 0).toNat <<< 8 |||
    (digest.val.getD (number * 4) 0).toNat) &&& 0xFFFFFFFF

/-- Put the virtual nodes of one group of `invoker` on the ring. -/
def addGroup (invoker : Address) (virtualInvokers : List (Nat × Address)) (i : Nat) :
    List (Nat × Address) :=
  let digest := hashing.md5 (hashing.toString invoker ++ ascii (toString i))
  (List.range 4).foldl
    (fun virtualInvokers h => SortedMap.assign (hash digest h) invoker virtualInvokers)
    virtualInvokers

def addInvoker (replicaNumber : Nat) (virtualInvokers : List (Nat × Address))
    (invoker : Address) : List (Nat × Address) :=
  (List.range (replicaNumber / 4)).foldl (addGroup hashing invoker) virtualInvokers

/-- The constructor, which takes the hash code as an `int`. -/
def create (invokers : List Address) (replicaNumber : Nat) (identityHashCode : UInt64) :
    ConsistentHashSelector Address where
  virtualInvokers := invokers.foldl (addInvoker hashing replicaNumber) []
  identityHashCode := identityHashCode.toUInt32.toInt32

/-- The first virtual node from `hashCode` on, or else the first of the ring.
The result is `none` on an empty ring, which has no node to refer to. -/
def selectForKey (selector : ConsistentHashSelector Address) (hashCode : Nat) :
    Option Address :=
  match SortedMap.lowerBound hashCode selector.virtualInvokers with
  | node :: _ => some node.2
  | [] => selector.virtualInvokers.head?.map Prod.snd

def select (selector : ConsistentHashSelector Address) (rpcServiceKey : Bytes) :
    Option Address :=
  selector.selectForKey (hash (hashing.md5 rpcServiceKey) 0)

end ConsistentHashSelector

inductive LoadBalanceCategory
  | random
  | round
  | consistentHash
deriving DecidableEq

/-- The selectors that a `ConsistentHashLoadBalanceStrategy` has, by method name. -/
abbrev Selectors (Address : Type u) := Bytes → Option (ConsistentHashSelector Address)

/-- A strategy object with what it remembers between calls. -/
inductive LoadBalanceStrategy (Address : Type u)
  | random
  | round (index : Nat)
  | consistentHash (selectors : Selectors Address)

def LoadBalanceStrategy.category {Address : Type u} :
    LoadBalanceStrategy Address → LoadBalanceCategory
  | .random => .random
  | .round _ => .round
  | .consistentHash _ => .consistentHash

namespace RandomLoadBalanceStrategy

/-- The result is `none` where the source divides by zero. -/
def select {Address : Type u} (rand : Nat) (addrs : List Address) : Option Address :=
  addrs[rand % addrs.length]?

end RandomLoadBalanceStrategy

namespace RoundLoadBalanceStrategy

/-- The answer, which is `none` where the source reads behind the list, and the
next index. -/
def select {Address : Type u} (index : Nat) (addrs : List Address) :
    Option Address × Nat :=
  let index := if index ≥ addrs.length then 0 else index
  (addrs[index]?, index + 1)

end RoundLoadBalanceStrategy

namespace ConsistentHashLoadBalanceStrategy

variable {Address : Type u} (hashing : Hashing Address)

def hashCode (addrs : List Address) : UInt64 :=
  addrs.foldl (fun result item => 31 * result + hashing.stringHash (hashing.toString item)) 1

/-- `unordered_map::insert`, which keeps an entry that exists. -/
def insert (selectors : Selectors Address) (methodName : Bytes)
    (selector : ConsistentHashSelector Address) : Selectors Address :=
  match selectors methodName with
  | some _ => selectors
  | none => Function.update selectors methodName (some selector)

/-- Whether the hash code that a selector holds as an `int` differs from `hashCode`. -/
def isOutdated (selector : ConsistentHashSelector Address) (hashCode : UInt64) : Bool :=
  selector.identityHashCode.toInt64.toUInt64 ≠ hashCode

def select (selectors : Selectors Address) (addrs : List Address)
    (invocation : TinyPBProtocol) : Option Address × Selectors Address :=
  let identityHashCode := hashCode hashing addrs
  let absentOrOutdated :=
    match selectors invocation.methodName with
    | none => true
    | some selector => isOutdated selector identityHashCode
  let selectors :=
    if absentOrOutdated then
      insert selectors invocation.methodName (.create hashing addrs 160 identityHashCode)
    else selectors
  ((selectors invocation.methodName).bind fun selector =>
    selector.select hashing invocation.pbData, selectors)

end ConsistentHashLoadBalanceStrategy

namespace LoadBalanceStrategy

variable {Address : Type u} (hashing : Hashing Address)

/-- The virtual `select`, with the number that `rand` returns to it. -/
def select (rand : Nat) (strategy : LoadBalanceStrategy Address) (addrs : List Address)
    (invocation : TinyPBProtocol) : Option Address × LoadBalanceStrategy Address :=
  match strategy with
  | .random => (RandomLoadBalanceStrategy.select rand addrs, .random)
  | .round index =>
      let answer := RoundLoadBalanceStrategy.select index addrs
      (answer.1, .round answer.2)
  | .consistentHash selectors =>
      let answer := ConsistentHashLoadBalanceStrategy.select hashing selectors addrs invocation
      (answer.1, .consistentHash answer.2)

theorem select_category (rand : Nat) (strategy : LoadBalanceStrategy Address)
    (addrs : List Address) (invocation : TinyPBProtocol) :
    (strategy.select hashing rand addrs invocation).2.category = strategy.category := by
  cases strategy <;> rfl

end LoadBalanceStrategy

/-- What the strategy objects that all channels share remember. -/
structure LoadBalance (Address : Type u) where
  index : Nat := 0
  selectors : Selectors Address := fun _ => none

namespace LoadBalance

variable {Address : Type u}

def queryStrategy (strategies : LoadBalance Address) :
    LoadBalanceCategory → LoadBalanceStrategy Address
  | .random => .random
  | .round => .round strategies.index
  | .consistentHash => .consistentHash strategies.selectors

@[simp]
theorem queryStrategy_category (strategies : LoadBalance Address)
    (category : LoadBalanceCategory) :
    (strategies.queryStrategy category).category = category := by
  cases category <;> rfl

end LoadBalance

end NetRpc
