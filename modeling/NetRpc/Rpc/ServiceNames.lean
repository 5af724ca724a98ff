import NetRpc.Rpc.CallSetup
import NetRpc.Rpc.Dispatcher

/-! # The names of services and methods

`CallMethod` sends the full name of a method, with its package. `registerService`
keeps a service under its bare name, and `dispatch` takes the part before the
first dot for the service and all that follows for the method.
-/

namespace NetRpc

/-- The character between the parts of a qualified name. -/
def dot : Byte := 0x2e

/-- A name in a `.proto` file. -/
abbrev Identifier := { name : Bytes // name ≠ [] ∧ dot ∉ name }

/-- A qualified name. -/
def joinDots : List Identifier → Bytes
  | [] => []
  | [last] => last
  | first :: rest => first ++ dot :: joinDots rest

structure ServiceDescriptor (Method Request Response : Type) where
  package : List Identifier
  name : Identifier
  methods : List (Identifier × Method)
  /-- No two methods of a service have one name. -/
  distinct : (methods.map Prod.fst).Nodup
  parseFromString : Method → Bytes → Option Request
  serializeToString : Method → Response → Option Bytes

variable {Method Request Response : Type}

namespace ServiceDescriptor

/-- `FindMethodByName`, which takes the bare name of a method. -/
def findMethodByName (descriptor : ServiceDescriptor Method Request Response)
    (name : Bytes) : Option Method :=
  (descriptor.methods.find? fun method => method.1.val = name).map Prod.snd

def service (descriptor : ServiceDescriptor Method Request Response) :
    Service Method Request Response where
  findMethodByName := descriptor.findMethodByName
  parseFromString := descriptor.parseFromString
  serializeToString := descriptor.serializeToString

/-- `MethodDescriptor::full_name` -/
def methodFullName (descriptor : ServiceDescriptor Method Request Response)
    (method : Identifier) : Bytes :=
  joinDots (descriptor.package ++ [descriptor.name, method])

end ServiceDescriptor

namespace RpcDispatcher

/-- The registered services, under their bare names. -/
abbrev Registry (Method Request Response : Type) :=
  Bytes → Option (ServiceDescriptor Method Request Response)

/-- `map::insert` keeps a service that is registered already. -/
def registerService (registry : Registry Method Request Response)
    (descriptor : ServiceDescriptor Method Request Response) :
    Registry Method Request Response :=
  match registry descriptor.name with
  | some _ => registry
  | none => Function.update registry descriptor.name (some descriptor)

def registerAll (services : List (ServiceDescriptor Method Request Response)) :
    Registry Method Request Response :=
  services.foldl registerService fun _ => none

/-- The service map that `dispatch` looks into. -/
def serviceMapOf (registry : Registry Method Request Response) :
    ServiceMap Method Request Response :=
  fun name => (registry name).map ServiceDescriptor.service

/-- The service and the method that `dispatch` finds for a request. -/
def resolve (registry : Registry Method Request Response) (request : TinyPBProtocol) :
    Option (ServiceDescriptor Method Request Response × Method) := do
  let (serviceName, methodName) ← parseServiceFullName request.methodName
  let descriptor ← registry serviceName
  let method ← descriptor.findMethodByName methodName
  some (descriptor, method)

theorem resolve_eq_some_iff {registry : Registry Method Request Response}
    {request : TinyPBProtocol} {descriptor : ServiceDescriptor Method Request Response}
    {method : Method} :
    resolve registry request = some (descriptor, method) ↔
      ∃ serviceName methodName,
        parseServiceFullName request.methodName = some (serviceName, methodName) ∧
          registry serviceName = some descriptor ∧
          descriptor.findMethodByName methodName = some method := by
  simp only [resolve, Option.bind_eq_bind, Option.bind_eq_some_iff, Option.some.injEq,
    Prod.mk.injEq]
  constructor
  · rintro ⟨⟨serviceName, methodName⟩, split, found, registered, foundMethod, hasMethod, rfl, rfl⟩
    exact ⟨serviceName, methodName, split, registered, hasMethod⟩
  · rintro ⟨serviceName, methodName, split, registered, hasMethod⟩
    exact ⟨(serviceName, methodName), split, descriptor, registered, method, hasMethod, rfl, rfl⟩

/-- `dispatch` hands the request to the service and the method that it finds. -/
theorem dispatch_of_resolve {registry : Registry Method Request Response}
    {request : TinyPBProtocol} {descriptor : ServiceDescriptor Method Request Response}
    {method : Method} {parsed : Request}
    (resolved : resolve registry request = some (descriptor, method))
    (parses : descriptor.parseFromString method request.pbData = some parsed)
    (response : TinyPBProtocol) :
    (dispatch (serviceMapOf registry) request response).2 =
      some { service := descriptor.service, method, request := parsed } := by
  rcases resolve_eq_some_iff.mp resolved with
    ⟨serviceName, methodName, split, registered, hasMethod⟩
  have service : serviceMapOf registry serviceName = some descriptor.service := by
    rw [serviceMapOf, registered, Option.map_some]
  have lookup : descriptor.service.findMethodByName methodName = some method := hasMethod
  have parse : descriptor.service.parseFromString method request.pbData = some parsed := parses
  simp only [dispatch, split, service, lookup, parse]

/-! ## Splitting and looking up -/

theorem parseServiceFullName_append {first rest : Bytes} (bare : dot ∉ first) :
    parseServiceFullName (first ++ dot :: rest) = some (first, rest) := by
  have position : (first ++ dot :: rest).findIdx? (· == 0x2e) = some first.length :=
    findIdx?_separator bare rest
  have notEmpty : ¬(first ++ dot :: rest).isEmpty = true := by simp
  simp only [parseServiceFullName, if_neg notEmpty, position, Option.bind_eq_bind,
    Option.bind_some, List.take_left, drop_separator]

/-- The first registered service with a name. -/
theorem registerAll_eq_find? (services : List (ServiceDescriptor Method Request Response))
    (name : Bytes) :
    registerAll services name = services.find? fun descriptor => descriptor.name.val = name := by
  have general : ∀ registry : Registry Method Request Response,
      services.foldl registerService registry name =
        (registry name).or (services.find? fun descriptor => descriptor.name.val = name) := by
    induction services with
    | nil => exact fun registry => Option.or_none.symm
    | cons descriptor rest induction =>
        intro registry
        rw [List.foldl_cons, induction, registerService, List.find?_cons]
        by_cases same : descriptor.name.val = name
        · subst same
          cases known : registry descriptor.name with
          | none => simp
          | some => simp [known]
        · cases registry descriptor.name with
          | none => simp [same, Ne.symm same]
          | some => simp [same]
  exact general fun _ => none

theorem registerAll_name (services : List (ServiceDescriptor Method Request Response))
    (name : Identifier) :
    registerAll services name = services.find? fun descriptor => descriptor.name = name := by
  rw [registerAll_eq_find?]
  congr 1
  funext descriptor
  rw [Bool.eq_iff_iff, decide_eq_true_eq, decide_eq_true_eq, Subtype.ext_iff]

theorem dot_mem_joinDots {first second : Identifier} {rest : List Identifier} :
    dot ∈ joinDots (first :: second :: rest) := by
  rw [joinDots]
  · exact List.mem_append_right _ List.mem_cons_self
  · exact List.cons_ne_nil _ _

/-- The method of a name with more than two parts is not bare. -/
theorem findMethodByName_of_dot {descriptor : ServiceDescriptor Method Request Response}
    {name : Bytes} (dotted : dot ∈ name) : descriptor.findMethodByName name = none := by
  rw [ServiceDescriptor.findMethodByName, Option.map_eq_none_iff, List.find?_eq_none]
  intro method _
  rw [decide_eq_true_eq]
  intro same
  exact method.1.property.2 (same ▸ dotted)

theorem findMethodByName_of_mem {descriptor : ServiceDescriptor Method Request Response}
    {name : Identifier} {method : Method} (member : (name, method) ∈ descriptor.methods) :
    descriptor.findMethodByName name = some method := by
  have found : (descriptor.methods.find? fun other => other.1.val = name.val).isSome = true := by
    rw [List.find?_isSome]
    exact ⟨(name, method), member, decide_eq_true rfl⟩
  rcases Option.isSome_iff_exists.mp found with ⟨entry, isEntry⟩
  have sameName : entry.1 = name := by
    have named := List.find?_some isEntry
    rw [decide_eq_true_eq] at named
    exact Subtype.ext named
  have same : entry = (name, method) :=
    List.inj_on_of_nodup_map descriptor.distinct (List.mem_of_find?_eq_some isEntry) member
      sameName
  rw [ServiceDescriptor.findMethodByName, isEntry, same, Option.map_some]

/-! ## Agreement -/

/-- The request that `CallMethod` sends for a method is resolved to this method. -/
def Agrees (services : List (ServiceDescriptor Method Request Response))
    (descriptor : ServiceDescriptor Method Request Response) (name : Identifier)
    (method : Method) : Prop :=
  ∀ (arguments : RpcChannel.CallArguments) (pbData : Bytes),
    arguments.methodFullName = descriptor.methodFullName name →
      resolve (registerAll services) (arguments.reqProtocol pbData) =
          some (descriptor, method) ∧
        ∀ parsed, descriptor.parseFromString method pbData = some parsed →
          (dispatch (serviceMapOf (registerAll services)) (arguments.reqProtocol pbData) {}).2 =
            some { service := descriptor.service, method, request := parsed }

/-- A service without a package is found if it is the first of its name. -/
theorem agrees_of_first {services : List (ServiceDescriptor Method Request Response)}
    {descriptor : ServiceDescriptor Method Request Response} {name : Identifier}
    {method : Method} (member : (name, method) ∈ descriptor.methods)
    (noPackage : descriptor.package = [])
    (first : (services.find? fun other => other.name = descriptor.name) = some descriptor) :
    Agrees services descriptor name method := by
  intro arguments pbData named
  have split : parseServiceFullName (arguments.reqProtocol pbData).methodName =
      some (descriptor.name.val, name.val) := by
    change parseServiceFullName arguments.methodFullName = _
    rw [named, ServiceDescriptor.methodFullName, noPackage]
    exact parseServiceFullName_append descriptor.name.property.2
  have resolved : resolve (registerAll services) (arguments.reqProtocol pbData) =
      some (descriptor, method) := by
    rw [resolve_eq_some_iff]
    exact ⟨_, _, split, (registerAll_name services descriptor.name).trans first,
      findMethodByName_of_mem member⟩
  exact ⟨resolved, fun parsed parses => dispatch_of_resolve resolved parses {}⟩

/-- The arguments of a call of the method with this full name. -/
def callOf (methodFullName : Bytes) : RpcChannel.CallArguments :=
  { RpcChannel.plainCall with methodFullName }

theorem first_of_agrees {services : List (ServiceDescriptor Method Request Response)}
    {descriptor : ServiceDescriptor Method Request Response} {name : Identifier}
    {method : Method} (agrees : Agrees services descriptor name method) :
    descriptor.package = [] ∧
      (services.find? fun other => other.name = descriptor.name) = some descriptor := by
  have resolved := (agrees (callOf (descriptor.methodFullName name)) [] rfl).1
  have sent : ((callOf (descriptor.methodFullName name)).reqProtocol []).methodName =
      descriptor.methodFullName name := rfl
  rw [resolve_eq_some_iff, sent, ServiceDescriptor.methodFullName] at resolved
  rcases resolved with ⟨serviceName, methodName, split, registered, hasMethod⟩
  cases package : descriptor.package with
  | nil =>
      rw [package] at split
      have bare : parseServiceFullName (joinDots ([] ++ [descriptor.name, name])) =
          some (descriptor.name.val, name.val) :=
        parseServiceFullName_append descriptor.name.property.2
      rw [bare] at split
      cases split
      exact ⟨rfl, (registerAll_name services descriptor.name).symm.trans registered⟩
  | cons first rest =>
      rw [package] at split
      have qualified : parseServiceFullName
          (joinDots (first :: rest ++ [descriptor.name, name])) =
            some (first.val, joinDots (rest ++ [descriptor.name, name])) := by
        rw [List.cons_append, joinDots]
        · exact parseServiceFullName_append first.property.2
        · exact List.append_ne_nil_of_right_ne_nil _ (List.cons_ne_nil _ _)
      rw [qualified] at split
      cases split
      have dotted : dot ∈ joinDots (rest ++ [descriptor.name, name]) := by
        cases rest with
        | nil => exact dot_mem_joinDots
        | cons second others =>
            cases others with
            | nil => exact dot_mem_joinDots
            | cons => exact dot_mem_joinDots
      rw [findMethodByName_of_dot dotted] at hasMethod
      cases hasMethod

/-- Names agree exactly where every service that has a method has no package and
is the first registered one of its name. -/
theorem names_agree_iff (services : List (ServiceDescriptor Method Request Response)) :
    (∀ descriptor ∈ services, ∀ entry ∈ descriptor.methods,
        Agrees services descriptor entry.1 entry.2) ↔
      ∀ descriptor ∈ services, descriptor.methods ≠ [] → descriptor.package = [] ∧
        (services.find? fun other => other.name = descriptor.name) = some descriptor := by
  constructor
  · intro agree descriptor member some
    rcases List.exists_mem_of_ne_nil _ some with ⟨entry, inside⟩
    exact first_of_agrees (agree descriptor member entry inside)
  · intro first descriptor member entry inside
    have holds := first descriptor member (List.ne_nil_of_mem inside)
    exact agrees_of_first inside holds.1 holds.2

/-- The service `Order` of a package `shop`. -/
def shopOrder : ServiceDescriptor Unit Bytes Bytes where
  package := [⟨ascii "shop", by decide +kernel⟩]
  name := ⟨ascii "Order", by decide +kernel⟩
  methods := [(⟨ascii "makeOrder", by decide +kernel⟩, ())]
  distinct := List.nodup_singleton _
  parseFromString _ pbData := some pbData
  serializeToString _ response := some response

/-- The method of a service in a package is not found. -/
theorem names_disagree :
    ¬∀ descriptor ∈ [shopOrder], ∀ entry ∈ descriptor.methods,
      Agrees [shopOrder] descriptor entry.1 entry.2 := by
  intro agree
  have agrees := agree shopOrder (List.mem_singleton_self _) _ List.mem_cons_self
  have noPackage := (first_of_agrees agrees).1
  cases noPackage

end RpcDispatcher

end NetRpc
