import Mathlib.Logic.Function.Basic
import NetRpc.Foundation.Transition
import NetRpc.Tcp.NetAddr

/-! # Registering and finding services

A server stores its address in ZooKeeper, under a path for each method. A client
reads it into an array on its stack and takes it apart. ZooKeeper is a
parameter.
-/

namespace NetRpc

def slash : Byte := 0x2f

/-- The name of a service or a method. -/
abbrev NodeName := { name : Bytes // name ≠ [] ∧ slash ∉ name ∧ 0 ∉ name }

inductive ZooCode
  | ok
  | noNode
  | failed
deriving DecidableEq

structure ZooKeeper (Tree : Type) where
  /-- The data of the node at a path. -/
  stored : Tree → Bytes → Option Bytes
  zooExists : Tree → Bytes → ZooCode
  zooCreate : Tree → Bytes → Bytes → ZooCode × Tree
  /-- The buffer comes back filled. -/
  zooGet : Tree → Bytes → Bytes → ZooCode × Bytes

namespace ZooKeeper

variable {Tree : Type}

/-- What the code relies on. `zoo_get` copies the stored bytes to the front of the
buffer and adds no terminator. -/
structure Lawful (client : ZooKeeper Tree) : Prop where
  exists_iff : ∀ tree path,
    client.zooExists tree path = .noNode ↔ client.stored tree path = none
  create : ∀ tree path data next, client.zooCreate tree path data = (.ok, next) →
    client.stored next = Function.update (client.stored tree) path (some data)
  get : ∀ tree path data buffer, client.stored tree path = some data →
    data.length ≤ buffer.length →
    client.zooGet tree path buffer = (.ok, data ++ buffer.drop data.length)

/-- `ZkClient::Create`. A node that exists is left alone; an error ends the
process. -/
def create (client : ZooKeeper Tree) (tree : Tree) (path data : Bytes) : Option Tree :=
  match client.zooExists tree path with
  | .noNode =>
      match client.zooCreate tree path data with
      | (.ok, next) => some next
      | _ => none
  | _ => some tree

/-- What the stack holds where `GetData` keeps its array. -/
abbrev StackBuffer := { buffer : Bytes // buffer.length = 64 }

/-- `ZkClient::GetData`. The length that `zoo_get` reports is not used. -/
def getData (client : ZooKeeper Tree) (tree : Tree) (path : Bytes) (buffer : StackBuffer) :
    Option Bytes :=
  match client.zooGet tree path buffer with
  | (.ok, buffer) => readCString buffer
  | _ => some []

end ZooKeeper

namespace RpcDispatcher

def servicePath (service : NodeName) : Bytes :=
  slash :: service.val

def methodPath (service method : NodeName) : Bytes :=
  servicePath service ++ slash :: method.val

/-- What `sprintf` prints with `%s:%d`. -/
def methodPathData (ip : Bytes) (port : Int) : Bytes :=
  ip.takeWhile (· ≠ 0) ++ colon :: decimal port

/-- The services in the map with their methods, as a loop comes to them. -/
abbrev Services := List (NodeName × List NodeName)

/-- The loops of `registerService` over its map. -/
def registerNodes {Tree : Type} (client : ZooKeeper Tree) (ip : Bytes) (port : Int)
    (tree : Tree) (services : Services) : Option Tree :=
  services.foldlM
    (fun tree entry => do
      let tree ← client.create tree (servicePath entry.1) []
      entry.2.foldlM
        (fun tree method =>
          client.create tree (methodPath entry.1 method) (methodPathData ip port))
        tree)
    tree

/-- The paths that the loops come to, with the data for each. -/
def nodes (ip : Bytes) (port : Int) (services : Services) : List (Bytes × Bytes) :=
  services.flatMap fun entry =>
    (servicePath entry.1, []) ::
      entry.2.map fun method => (methodPath entry.1 method, methodPathData ip port)

end RpcDispatcher

/-- `RpcChannel::FindAddr` -/
def RpcChannel.findAddr (rpcStubs : Bytes → Option IPNetAddr) (str : Bytes) :
    Option IPNetAddr :=
  if IPNetAddr.checkValid str then some (.ofText str) else rpcStubs str

/-- The address of a server as it is configured. -/
structure ServerAddr where
  ip : Bytes
  port : Nat
  nonempty : ip ≠ []
  noColon : colon ∉ ip
  noNul : 0 ∉ ip
  positive : 0 < port
  bounded : port < 65536
  short : (ip ++ colon :: decimal port).length < 64

def ServerAddr.text (addr : ServerAddr) : Bytes :=
  addr.ip ++ colon :: decimal addr.port

theorem ServerAddr.text_noNul (addr : ServerAddr) : 0 ∉ addr.text := by
  rw [text, List.mem_append, List.mem_cons, not_or, not_or]
  refine ⟨addr.noNul, by decide, fun member => ?_⟩
  have digit := isDigit_of_mem_decimal member
  cases digit

namespace ZooKeeper

variable {Tree : Type} {client : ZooKeeper Tree} {tree start next final : Tree}
  {path data : Bytes}

/-! ## What is stored -/

/-- Runs of calls of `Create`, of a path with its data each. -/
def creating (client : ZooKeeper Tree) : Transition.System Tree (Bytes × Bytes) where
  Initial _ := True
  Step current node next := client.create current node.1 node.2 = some next

theorem create_stored (lawful : client.Lawful)
    (created : client.create tree path data = some next) :
    client.stored next =
      Function.update (client.stored tree) path ((client.stored tree path).or (some data)) := by
  unfold create at created
  split at created
  · next noNode =>
      rw [(lawful.exists_iff tree path).mp noNode, Option.none_or]
      split at created
      · next made =>
          cases created
          exact lawful.create tree path data next made
      · cases created
  · next found =>
      cases created
      cases known : client.stored tree path with
      | none => exact absurd ((lawful.exists_iff tree path).mpr known) found
      | some old => rw [Option.some_or, ← known, Function.update_eq_self]

/-- After any calls of `Create` every path has some data. It is what was stored
there before, or what one of the calls has given. -/
theorem run_stored (lawful : client.Lawful) {nodes : List (Bytes × Bytes)}
    (run : client.creating.Run start nodes final) :
    (∀ node ∈ nodes, (client.stored final node.1).isSome = true) ∧
      ∀ path data, client.stored final path = some data →
        client.stored start path = some data ∨ (path, data) ∈ nodes := by
  refine run.history (fun nodes final =>
    (∀ node ∈ nodes, (client.stored final node.1).isSome = true) ∧
      ∀ path data, client.stored final path = some data →
        client.stored start path = some data ∨ (path, data) ∈ nodes) ?_ ?_
  · rintro history current ⟨created, given⟩ next ⟨present, origin⟩ step
    have stored := create_stored lawful step
    constructor
    · intro node member
      rw [stored]
      by_cases same : node.1 = created
      · rw [same, Function.update_self]
        cases client.stored current created <;> rfl
      · rw [Function.update_of_ne same]
        rcases List.mem_append.mp member with earlier | last
        · exact present node earlier
        · rw [List.mem_singleton] at last
          subst last
          exact absurd rfl same
    · intro path data holds
      rw [stored] at holds
      by_cases same : path = created
      · subst same
        rw [Function.update_self] at holds
        cases known : client.stored current path with
        | none =>
            rw [known, Option.none_or, Option.some.injEq] at holds
            subst holds
            exact .inr (List.mem_append_right _ (List.mem_singleton_self _))
        | some old =>
            rw [known, Option.some_or] at holds
            have earlier := origin path data (known.trans holds)
            exact earlier.imp_right (List.mem_append_left _)
      · rw [Function.update_of_ne same] at holds
        exact (origin path data holds).imp_right (List.mem_append_left _)
  · exact ⟨fun node member => absurd member List.not_mem_nil, fun path data holds => .inl holds⟩

/-- The array is read back as the stored text exactly if the byte that was
behind it is a terminator. -/
theorem getData_eq_iff (lawful : client.Lawful) (holds : client.stored tree path = some data)
    (noNul : 0 ∉ data) (short : data.length < 64) (buffer : StackBuffer) :
    client.getData tree path buffer = some data ↔ buffer.val[data.length]? = some 0 := by
  have fits : data.length ≤ buffer.val.length := by
    rw [buffer.property]
    omega
  rw [getData, lawful.get tree path data buffer holds fits]
  exact (readCString_eq_iff noNul _).trans (by rw [List.head?_drop])

end ZooKeeper

namespace RpcDispatcher

open ZooKeeper

variable {Tree : Type} {client : ZooKeeper Tree} {start final : Tree}

theorem methodPath_ne_servicePath (other service method : NodeName) :
    methodPath service method ≠ servicePath other := by
  intro same
  rw [methodPath, servicePath, servicePath, List.cons_append, List.cons.injEq] at same
  apply other.property.2.1
  rw [← same.2]
  exact List.mem_append_right _ List.mem_cons_self

theorem methodPathData_eq (addr : ServerAddr) :
    methodPathData addr.ip addr.port = addr.text := by
  have whole : addr.ip.takeWhile (· ≠ 0) = addr.ip := by
    rw [List.takeWhile_eq_self_iff]
    intro byte member
    rw [decide_eq_true_eq]
    rintro rfl
    exact addr.noNul member
  rw [methodPathData, whole, ServerAddr.text]

/-- Whatever is created at the path of a method is the address. -/
theorem data_of_mem_nodes {ip : Bytes} {port : Int} {services : Services}
    {service method : NodeName} {data : Bytes}
    (member : (methodPath service method, data) ∈ nodes ip port services) :
    data = methodPathData ip port := by
  rw [nodes, List.mem_flatMap] at member
  rcases member with ⟨entry, _, inside⟩
  rcases List.mem_cons.mp inside with same | inside
  · rw [Prod.mk.injEq] at same
    exact absurd same.1 (methodPath_ne_servicePath entry.1 service method)
  · rcases List.mem_map.mp inside with ⟨other, _, same⟩
    rw [Prod.mk.injEq] at same
    exact same.2.symm

theorem mem_nodes {ip : Bytes} {port : Int} {services : Services} {service method : NodeName}
    {methods : List NodeName} (entry : (service, methods) ∈ services) (member : method ∈ methods) :
    (methodPath service method, methodPathData ip port) ∈ nodes ip port services := by
  rw [nodes, List.mem_flatMap]
  exact ⟨(service, methods), entry,
    List.mem_cons_of_mem _ (List.mem_map_of_mem member)⟩

theorem registerNodes_eq (client : ZooKeeper Tree) (ip : Bytes) (port : Int) (tree : Tree)
    (services : Services) :
    registerNodes client ip port tree services =
      (nodes ip port services).foldlM (fun tree node => client.create tree node.1 node.2) tree := by
  induction services generalizing tree with
  | nil => rfl
  | cons entry services induction =>
      simp only [registerNodes, nodes] at induction
      simp only [registerNodes, nodes, List.foldlM_cons, List.flatMap_cons, List.foldlM_append,
        List.foldlM_map, induction, bind_assoc]

theorem registered_run {ip : Bytes} {port : Int} {calls : List Services}
    (registered : calls.foldlM (registerNodes client ip port) start = some final) :
    client.creating.Run start (calls.flatMap (nodes ip port)) final := by
  induction calls generalizing start with
  | nil =>
      cases registered
      exact .nil _
  | cons services calls induction =>
      simp only [List.foldlM_cons, Option.bind_eq_bind, Option.bind_eq_some_iff] at registered
      rcases registered with ⟨middle, first, rest⟩
      rw [List.flatMap_cons]
      rw [registerNodes_eq] at first
      have run : client.creating.Run start (nodes ip port services) middle :=
        Transition.System.Run.of_foldlM (fun _ _ _ created => created) first
      exact run.append (induction rest)

/-- A path that registration creates holds the address from then on. -/
theorem stored_address (lawful : client.Lawful) {ip : Bytes} {port : Int} {calls : List Services}
    (registered : calls.foldlM (registerNodes client ip port) start = some final)
    {services : Services} (call : services ∈ calls) {service method : NodeName}
    {methods : List NodeName} (entry : (service, methods) ∈ services) (member : method ∈ methods)
    (created : client.stored start (methodPath service method) = none) :
    client.stored final (methodPath service method) = some (methodPathData ip port) := by
  rcases run_stored lawful (registered_run registered) with ⟨present, origin⟩
  have node : (methodPath service method, methodPathData ip port) ∈ nodes ip port services :=
    mem_nodes entry member
  have inside := List.mem_flatMap_of_mem call node
  rcases Option.isSome_iff_exists.mp (present _ inside) with ⟨data, holds⟩
  rcases origin _ data holds with before | given
  · rw [created] at before
    cases before
  · rcases List.mem_flatMap.mp given with ⟨_, _, node⟩
    rw [holds, data_of_mem_nodes node]

/-- What is read for a path that registration has created is the address
exactly if the array on the stack happened to hold a terminator behind it. -/
theorem discovered_iff (lawful : client.Lawful) (addr : ServerAddr) {calls : List Services}
    (registered : calls.foldlM (registerNodes client addr.ip addr.port) start = some final)
    {services : Services} (call : services ∈ calls) {service method : NodeName}
    {methods : List NodeName} (entry : (service, methods) ∈ services) (member : method ∈ methods)
    (created : client.stored start (methodPath service method) = none)
    (rpcStubs : Bytes → Option IPNetAddr) (buffer : StackBuffer) :
    (client.getData final (methodPath service method) buffer = some addr.text ∧
      (client.getData final (methodPath service method) buffer).bind
        (RpcChannel.findAddr rpcStubs) = some { ip := addr.ip, port := .ofNat addr.port }) ↔
      buffer.val[addr.text.length]? = some 0 := by
  have holds := stored_address lawful registered call entry member created
  rw [methodPathData_eq] at holds
  have read := getData_eq_iff lawful holds addr.text_noNul addr.short buffer
  have found : RpcChannel.findAddr rpcStubs addr.text =
      some { ip := addr.ip, port := .ofNat addr.port } := by
    have valid := IPNetAddr.checkValid_decimal addr.nonempty addr.noColon addr.positive
      (Nat.le_of_lt addr.bounded)
    rw [RpcChannel.findAddr, ServerAddr.text, if_pos valid,
      IPNetAddr.ofText_decimal addr.noColon addr.bounded]
  rw [← read]
  constructor
  · exact And.left
  · intro same
    rw [same, Option.bind_some]
    exact ⟨rfl, found⟩

/-! ## A server on this host -/

/-- Nodes in a map, with the arrays filled from the front. -/
def mapClient : ZooKeeper (Bytes → Option Bytes) where
  stored tree := tree
  zooExists tree path := if (tree path).isSome then .ok else .noNode
  zooCreate tree path data :=
    if (tree path).isSome then (.failed, tree)
    else (.ok, Function.update tree path (some data))
  zooGet tree path buffer :=
    match tree path with
    | some data => (.ok, data.take buffer.length ++ buffer.drop data.length)
    | none => (.noNode, buffer)

theorem mapClient_lawful : mapClient.Lawful where
  exists_iff tree path := by
    cases known : tree path <;> simp [mapClient, known]
  create tree path data next made := by
    simp only [mapClient] at made
    split at made
    · cases made
    · cases made
      rfl
  get tree path data buffer holds fits := by
    have known : tree path = some data := holds
    simp only [mapClient, known, List.take_of_length_le fits]

def orderName : NodeName :=
  ⟨ascii "Order", by decide +kernel⟩

def makeOrderName : NodeName :=
  ⟨ascii "makeOrder", by decide +kernel⟩

def localAddr : ServerAddr where
  ip := ascii "127.0.0.1"
  port := 12345
  nonempty := by decide +kernel
  noColon := by decide +kernel
  noNul := by decide +kernel
  positive := by decide
  bounded := by decide
  short := by decide +kernel

/-- An array of zeros but for one byte behind the address. -/
def stackWith (byte : Byte) : StackBuffer :=
  ⟨List.replicate 15 0 ++ byte :: List.replicate 48 0, by simp⟩

theorem order_registered :
    ∃ final, [[(orderName, [makeOrderName])]].foldlM
      (registerNodes mapClient localAddr.ip localAddr.port) (fun _ => none) = some final := by
  apply Option.isSome_iff_exists.mp
  decide +kernel

theorem discovered_order :
    ∃ final, [[(orderName, [makeOrderName])]].foldlM
        (registerNodes mapClient localAddr.ip localAddr.port) (fun _ => none) = some final ∧
      ((mapClient.getData final (methodPath orderName makeOrderName) (stackWith 0) =
          some localAddr.text ∧
        (mapClient.getData final (methodPath orderName makeOrderName) (stackWith 0)).bind
          (RpcChannel.findAddr fun _ => none) =
            some { ip := localAddr.ip, port := .ofNat localAddr.port }) ↔
        (stackWith 0).val[localAddr.text.length]? = some 0) := by
  rcases order_registered with ⟨final, registered⟩
  exact ⟨final, registered, discovered_iff mapClient_lawful localAddr registered
    List.mem_cons_self List.mem_cons_self List.mem_cons_self rfl (fun _ => none) (stackWith 0)⟩

/-- With a digit behind it the port is read as 123456, and no address is found. -/
theorem not_discovered :
    ∃ final, [[(orderName, [makeOrderName])]].foldlM
        (registerNodes mapClient localAddr.ip localAddr.port) (fun _ => none) = some final ∧
      mapClient.getData final (methodPath orderName makeOrderName) (stackWith 0x36) =
        some (localAddr.text ++ ascii "6") ∧
      (mapClient.getData final (methodPath orderName makeOrderName) (stackWith 0x36)).bind
        (RpcChannel.findAddr fun _ => none) = none := by
  rcases order_registered with ⟨final, registered⟩
  have holds := stored_address mapClient_lawful registered List.mem_cons_self List.mem_cons_self
    (List.mem_cons_self : makeOrderName ∈ [makeOrderName]) rfl
  have read : mapClient.getData final (methodPath orderName makeOrderName) (stackWith 0x36) =
      some (localAddr.text ++ ascii "6") := by
    rw [getData, mapClient_lawful.get _ _ _ _ holds (by decide +kernel)]
    decide +kernel
  refine ⟨final, registered, read, ?_⟩
  rw [read, Option.bind_some]
  decide +kernel

end RpcDispatcher

end NetRpc
