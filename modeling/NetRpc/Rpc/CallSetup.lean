import NetRpc.Foundation.Transition
import NetRpc.LoadBalance.Strategy
import NetRpc.Rpc.Controller

/-! # What CallMethod connects to

A channel is built from one address or from a list of them. Before it connects,
`CallMethod` checks its arguments, lets the load balancer choose an address and
creates a client for `m_peer_addr`.
-/

namespace NetRpc

/-- The members of a channel that `CallMethod` reads or sets before it connects.
Addresses are not null where they are not optional. -/
structure RpcChannel (Address : Type u) where
  peerAddr : Option Address := none
  addrs : List Address
  loadBalancer : LoadBalanceStrategy Address
  isInit : Bool := false
  /-- The address that `m_client` was created with. -/
  client : Option Address := none

namespace RpcChannel

variable {Address : Type u}

/-- The two constructors. -/
inductive Construction (Address : Type u)
  | ofAddr (peerAddr : Address)
  | ofAddrs (addrs : List Address) (loadBalance : LoadBalanceCategory)

/-- The list that a channel is constructed with. -/
def Construction.addrs : Construction Address → List Address
  | .ofAddr peerAddr => [peerAddr]
  | .ofAddrs addrs _ => addrs

def Construction.category : Construction Address → LoadBalanceCategory
  | .ofAddr _ => .random
  | .ofAddrs _ loadBalance => loadBalance

/-- What a channel is constructed with as `m_peer_addr`. -/
def Construction.peerAddr : Construction Address → Option Address
  | .ofAddr peerAddr => some peerAddr
  | .ofAddrs _ _ => none

def construct (strategies : LoadBalance Address) : Construction Address → RpcChannel Address
  | .ofAddr peerAddr =>
      { peerAddr := some peerAddr
        addrs := [peerAddr]
        loadBalancer := strategies.queryStrategy .random }
  | .ofAddrs addrs loadBalance =>
      { addrs, loadBalancer := strategies.queryStrategy loadBalance }

def init (channel : RpcChannel Address) : RpcChannel Address :=
  { channel with isInit := true }

/-- The arguments of `CallMethod` and what it gets from elsewhere. -/
structure CallArguments where
  /-- `none` where the controller is no `RpcController`. -/
  controller : Option RpcController
  /-- What the request serializes to, if it does, and `none` for a null request. -/
  request : Option (Option Bytes)
  hasResponse : Bool
  methodFullName : Bytes
  controllerMsgId : Bytes
  runTimeMsgId : Bytes
  genMsgId : Bytes
  /-- What `rand` returns. -/
  rand : Nat
deriving DecidableEq

def CallArguments.msgId (arguments : CallArguments) : Bytes :=
  if arguments.controllerMsgId.isEmpty then
    if arguments.runTimeMsgId.isEmpty then arguments.genMsgId else arguments.runTimeMsgId
  else arguments.controllerMsgId

def CallArguments.reqProtocol (arguments : CallArguments) (pbData : Bytes) :
    TinyPBProtocol where
  msgId := arguments.msgId
  methodName := arguments.methodFullName
  pbData := pbData

inductive Prepared (Address : Type u)
  /-- A null pointer is dereferenced, or a list is read where it has no element. -/
  | undefined
  /-- `callBack` is called with this error, and `CallMethod` returns. -/
  | refused (controller : RpcController)
  /-- A request is to be sent to a client for `peerAddr`. -/
  | connects (reqProtocol : TinyPBProtocol) (selected peerAddr : Address)

variable (hashing : Hashing Address)

/-- The part of `CallMethod` that selects an address and creates the client. -/
def selectAndCreate (channel : RpcChannel Address) (arguments : CallArguments)
    (pbData : Bytes) (peerAddr : Address) : Prepared Address × RpcChannel Address :=
  let tmp : TinyPBProtocol := { methodName := arguments.methodFullName, pbData := pbData }
  let answer := channel.loadBalancer.select hashing arguments.rand channel.addrs tmp
  match answer.1 with
  | none => (.undefined, { channel with loadBalancer := answer.2 })
  | some selected =>
      (.connects (arguments.reqProtocol pbData) selected peerAddr,
        { channel with loadBalancer := answer.2, client := some peerAddr })

/-- `CallMethod` sets an error and calls `callBack`, which asks `m_controller` whether
it is finished. Before `Init` that is null. -/
def refuse (channel : RpcChannel Address) (controller : RpcController) (errorCode : Int32)
    (errorInfo : Bytes) : Prepared Address :=
  if channel.isInit then .refused (controller.setError errorCode errorInfo) else .undefined

/-- `CallMethod` up to the timer and the connection, with the channel it leaves. -/
def prepareCall (channel : RpcChannel Address) (arguments : CallArguments) :
    Prepared Address × RpcChannel Address :=
  match arguments.controller with
  | none => (.undefined, channel)
  | some controller =>
      if arguments.request.isNone || !arguments.hasResponse then
        (channel.refuse controller errorRpcChannelInit
          (ascii "controller or request or response NULL"), channel)
      else
        match channel.peerAddr with
        | none =>
            (channel.refuse controller errorRpcPeerAddr (ascii "peer addr nullptr"), channel)
        | some peerAddr =>
            if !channel.isInit then
              (channel.refuse controller errorRpcChannelInit
                (ascii "RpcChannel not call init()"), channel)
            else
              match arguments.request.join with
              | none =>
                  (channel.refuse controller errorFailedSerialize
                    (ascii "failed to serialize"), channel)
              | some pbData => selectAndCreate hashing channel arguments pbData peerAddr

/-! ## The life of a channel -/

inductive ChannelLabel
  | init
  | callMethod (arguments : CallArguments)
  /-- Another channel uses the same strategy object. -/
  | elsewhere

inductive ChannelStep : RpcChannel Address → ChannelLabel → RpcChannel Address → Prop
  | init {channel : RpcChannel Address} : ChannelStep channel .init channel.init
  | callMethod {channel : RpcChannel Address} (arguments : CallArguments) :
      ChannelStep channel (.callMethod arguments) (channel.prepareCall hashing arguments).2
  | elsewhere {channel : RpcChannel Address} {loadBalancer : LoadBalanceStrategy Address} :
      loadBalancer.category = channel.loadBalancer.category →
      ChannelStep channel .elsewhere { channel with loadBalancer }

def channelSystem (strategies : LoadBalance Address) (construction : Construction Address) :
    Transition.System (RpcChannel Address) ChannelLabel where
  Initial channel := channel = construct strategies construction
  Step := ChannelStep hashing

/-- The client that a call creates is for the address that the load balancer
returns, and this is one of `addrs`. -/
def ChoiceUsed (addrs : List Address) (channel : RpcChannel Address)
    (arguments : CallArguments) (pbData : Bytes) : Prop :=
  ∃ reqProtocol selected,
    (channel.loadBalancer.select hashing arguments.rand channel.addrs
        { methodName := arguments.methodFullName, pbData := pbData }).1 = some selected ∧
      (channel.prepareCall hashing arguments).1 =
        .connects reqProtocol selected selected ∧
      (channel.prepareCall hashing arguments).2.client = some selected ∧
      selected ∈ addrs

/-- What no step changes. -/
structure BuiltBy (construction : Construction Address) (channel : RpcChannel Address) :
    Prop where
  addrs : channel.addrs = construction.addrs
  category : channel.loadBalancer.category = construction.category
  peerAddr : channel.peerAddr = construction.peerAddr

/-- Of what a channel is built from, a call changes the state of the strategy only. -/
theorem BuiltBy.prepareCall {construction : Construction Address}
    {channel : RpcChannel Address} (built : BuiltBy construction channel)
    (arguments : CallArguments) :
    BuiltBy construction (channel.prepareCall hashing arguments).2 := by
  have selecting : ∀ pbData peerAddr, BuiltBy construction
      (channel.selectAndCreate hashing arguments pbData peerAddr).2 := by
    intro pbData peerAddr
    have category := channel.loadBalancer.select_category hashing arguments.rand channel.addrs
      { methodName := arguments.methodFullName, pbData := pbData }
    rw [selectAndCreate]
    split <;> exact ⟨built.addrs, category.trans built.category, built.peerAddr⟩
  rw [RpcChannel.prepareCall]
  split
  · exact built
  · split
    · exact built
    · split
      · exact built
      · split
        · exact built
        · split
          · exact built
          · exact selecting _ _

theorem BuiltBy.of_reachable {strategies : LoadBalance Address}
    {construction : Construction Address} {channel : RpcChannel Address}
    (reachable : (channelSystem hashing strategies construction).Reachable channel) :
    BuiltBy construction channel := by
  apply reachable.invariant (BuiltBy construction)
  · rintro channel rfl
    cases construction with
    | ofAddr peerAddr => exact ⟨rfl, strategies.queryStrategy_category .random, rfl⟩
    | ofAddrs addrs loadBalance =>
        exact ⟨rfl, strategies.queryStrategy_category loadBalance, rfl⟩
  · intro current label next built step
    cases step with
    | init => exact ⟨built.addrs, built.category, built.peerAddr⟩
    | callMethod arguments => exact built.prepareCall hashing arguments
    | elsewhere category => exact ⟨built.addrs, category.trans built.category, built.peerAddr⟩

/-- A channel with a single address has only this one to choose. -/
theorem select_random_single {strategy : LoadBalanceStrategy Address}
    (random : strategy.category = .random) (rand : Nat) (address : Address)
    (invocation : TinyPBProtocol) :
    (strategy.select hashing rand [address] invocation).1 = some address := by
  cases strategy with
  | random =>
      rw [LoadBalanceStrategy.select, RandomLoadBalanceStrategy.select, List.length_singleton,
        Nat.mod_one]
      rfl
  | round => cases random
  | consistentHash => cases random

/-- A refused call does not connect. -/
theorem refuse_ne_connects (channel : RpcChannel Address) (controller : RpcController)
    (errorCode : Int32) (errorInfo : Bytes) (reqProtocol : TinyPBProtocol)
    (selected peerAddr : Address) :
    channel.refuse controller errorCode errorInfo ≠ .connects reqProtocol selected peerAddr := by
  rw [refuse]
  split <;> simp

/-- A call that goes on has its controller and its response object, and its channel
has an address of its own. -/
theorem prepareCall_connects {channel : RpcChannel Address} {arguments : CallArguments}
    {reqProtocol : TinyPBProtocol} {selected peerAddr : Address}
    (prepared : (channel.prepareCall hashing arguments).1 =
      .connects reqProtocol selected peerAddr) :
    arguments.controller.isSome = true ∧ arguments.hasResponse = true ∧
      channel.peerAddr.isSome = true := by
  rw [prepareCall] at prepared
  split at prepared
  case h_1 => cases prepared
  case h_2 controller isController =>
    split at prepared
    case isTrue => exact absurd prepared (refuse_ne_connects _ _ _ _ _ _ _)
    case isFalse complete =>
      split at prepared
      case h_1 => exact absurd prepared (refuse_ne_connects _ _ _ _ _ _ _)
      case h_2 own isOwn =>
        simp only [Bool.or_eq_true, Bool.not_eq_true', not_or, Bool.not_eq_false] at complete
        exact ⟨Option.isSome_iff_exists.mpr ⟨controller, isController⟩, complete.2,
          Option.isSome_iff_exists.mpr ⟨own, isOwn⟩⟩

/-- The load balancer's choice is used exactly by the channels that are built
from a single address, for calls with a controller and a response object. -/
theorem choice_used_iff {strategies : LoadBalance Address}
    {construction : Construction Address} {channel : RpcChannel Address}
    (reachable : (channelSystem hashing strategies construction).Reachable channel)
    (isInit : channel.isInit = true) {arguments : CallArguments} {pbData : Bytes}
    (serializes : arguments.request = some (some pbData)) :
    ChoiceUsed hashing construction.addrs channel arguments pbData ↔
      (∃ peerAddr, construction = .ofAddr peerAddr) ∧ arguments.controller.isSome = true ∧
        arguments.hasResponse = true := by
  have built := BuiltBy.of_reachable hashing reachable
  constructor
  · rintro ⟨reqProtocol, selected, _, prepared, _⟩
    rcases prepareCall_connects hashing prepared with ⟨controller, response, own⟩
    refine ⟨?_, controller, response⟩
    cases construction with
    | ofAddr peerAddr => exact ⟨peerAddr, rfl⟩
    | ofAddrs addrs loadBalance =>
        rw [built.peerAddr] at own
        cases own
  · rintro ⟨⟨peerAddr, rfl⟩, controller, response⟩
    rcases Option.isSome_iff_exists.mp controller with ⟨myController, isController⟩
    have chosen := select_random_single hashing built.category arguments.rand peerAddr
      { methodName := arguments.methodFullName, pbData := pbData }
    have addrs : channel.addrs = [peerAddr] := built.addrs
    have own : channel.peerAddr = some peerAddr := built.peerAddr
    rw [ChoiceUsed, addrs]
    refine ⟨arguments.reqProtocol pbData, peerAddr, chosen, ?_, ?_, List.mem_singleton_self _⟩
    · simp [prepareCall, isController, serializes, response, own, isInit, addrs, chosen,
        selectAndCreate]
    · simp [prepareCall, isController, serializes, response, own, isInit, addrs, chosen,
        selectAndCreate]

def plainCall : CallArguments where
  controller := some {}
  request := some (some [0x08, 0x01])
  hasResponse := true
  methodFullName := ascii "Order.makeOrder"
  controllerMsgId := ascii "1"
  runTimeMsgId := []
  genMsgId := []
  rand := 0

theorem init_reachable (construction : Construction Address) :
    (channelSystem hashing {} construction).Reachable (construct {} construction).init :=
  ⟨_, [.init], rfl, .cons .init (.nil _)⟩

/-- A channel that is built from a list refuses the call. -/
theorem choice_not_used :
    ∃ channel : RpcChannel Bytes,
      (channelSystem lastByteHashing {}
        (.ofAddrs [ascii "127.0.0.1:8001", ascii "127.0.0.1:8002"] .random)).Reachable channel ∧
        channel.isInit = true ∧
        ¬ChoiceUsed lastByteHashing [ascii "127.0.0.1:8001", ascii "127.0.0.1:8002"] channel
          plainCall [0x08, 0x01] := by
  refine ⟨_, init_reachable _ _, rfl, ?_⟩
  rintro ⟨reqProtocol, selected, _, prepared, _⟩
  cases prepared

theorem choice_used_iff_single :
    ChoiceUsed lastByteHashing [ascii "127.0.0.1:8001"]
        (construct {} (.ofAddr (ascii "127.0.0.1:8001"))).init plainCall [0x08, 0x01] ↔
      (∃ peerAddr, Construction.ofAddr (ascii "127.0.0.1:8001") = .ofAddr peerAddr) ∧
        plainCall.controller.isSome = true ∧ plainCall.hasResponse = true :=
  choice_used_iff lastByteHashing (init_reachable _ _) rfl rfl

end RpcChannel

end NetRpc
