import Mathlib.Data.List.Basic
import Mathlib.Data.Option.Basic
import Mathlib.Logic.Function.Basic
import NetRpc.Common.MsgId

/-! # One message id along a tree of calls

`CallMethod` takes the id of a request from the controller, or else from the
`RunTime` of its thread, where the dispatcher has left the id of the last
request, or else it makes one up. So the calls that a service makes for a
request should bear the id of the call that all of them come from.
-/

namespace NetRpc

open MsgIDUtil

/-- The id that `CallMethod` puts on the request and leaves in the controller. -/
def RpcChannel.requestMsgId (controllerMsgId runTime : Bytes) (msgIds : MsgIdThread)
    (random : Random) : Option (Bytes × MsgIdThread) :=
  if controllerMsgId = [] then
    if runTime = [] then genMsgId msgIds random.val else some (runTime, msgIds)
  else some (controllerMsgId, msgIds)

structure CallingThread where
  /-- `m_msgid` of the `RunTime` -/
  runTime : Bytes := []
  msgIds : MsgIdThread := {}
  /-- The tree of the request whose service is being run, or of the call whose closure is. -/
  working : Option Nat := none
  /-- The tree of the request that was dispatched last. -/
  latest : Option Nat := none

structure SentRequest where
  tree : Nat
  msgId : Bytes

/-- The threads of clients and servers. A tree is a call from outside of all services, with
the calls that services make for it. -/
structure Calling where
  threads : Nat → CallingThread := fun _ => {}
  roots : List Bytes := []
  requests : List SentRequest := []
  /-- The calls of services, by their threads and trees. -/
  awaited : List (Nat × Nat) := []

inductive CallingEvent
  /-- A call from outside of all services. -/
  | begin (t : Nat) (controllerMsgId : Bytes) (random : Random)
  /-- A request is dispatched to its service. -/
  | dispatch (t place : Nat)
  /-- The closure of a service's call is run. -/
  | resume (place : Nat)
  /-- A call from a service, or from the closure of one of its calls. -/
  | call (t : Nat) (controllerMsgId : Bytes) (random : Random)
  /-- The service or the closure returns. -/
  | finish (t : Nat)

namespace Calling

def setThread (state : Calling) (t : Nat) (thread : CallingThread) : Calling :=
  { state with threads := Function.update state.threads t thread }

def beginTree (state : Calling) (msgId : Bytes) : Calling :=
  { state with
    roots := state.roots ++ [msgId]
    requests := state.requests ++ [⟨state.roots.length, msgId⟩] }

def callFrom (state : Calling) (t tree : Nat) (msgId : Bytes) : Calling :=
  { state with
    requests := state.requests ++ [⟨tree, msgId⟩]
    awaited := state.awaited ++ [(t, tree)] }

def step (state : Calling) : CallingEvent → Option Calling
  | .begin t controllerMsgId random => do
      let thread := state.threads t
      guard (thread.working = none)
      let (msgId, msgIds) ←
        RpcChannel.requestMsgId controllerMsgId thread.runTime thread.msgIds random
      some ((state.setThread t { thread with msgIds }).beginTree msgId)
  | .dispatch t place => do
      let thread := state.threads t
      guard (thread.working = none)
      let request ← state.requests[place]?
      some (state.setThread t { thread with
        runTime := request.msgId, working := some request.tree, latest := some request.tree })
  | .resume place => do
      let (t, tree) ← state.awaited[place]?
      guard ((state.threads t).working = none)
      some (state.setThread t { state.threads t with working := some tree })
  | .call t controllerMsgId random => do
      let thread := state.threads t
      let tree ← thread.working
      let (msgId, msgIds) ←
        RpcChannel.requestMsgId controllerMsgId thread.runTime thread.msgIds random
      some ((state.setThread t { thread with msgIds }).callFrom t tree msgId)
  | .finish t => do
      let _ ← (state.threads t).working
      some (state.setThread t { state.threads t with working := none })

def system : Transition.System Calling CallingEvent where
  Initial state := state = {}
  Step state event next := state.step event = some next

/-- Every request bears the id of its tree, and every `RunTime` that of the last request. -/
structure Traced (state : Calling) : Prop where
  requests : ∀ request ∈ state.requests, state.roots[request.tree]? = some request.msgId
  runTime : ∀ t tree, (state.threads t).latest = some tree →
    state.roots[tree]? = some (state.threads t).runTime

/-- A service sets the id of its tree, or the last request of its thread has it. -/
def Inherits (state : Calling) : CallingEvent → Prop
  | .call t controllerMsgId _ =>
      (if controllerMsgId = [] then (state.threads t).latest.bind (state.roots[·]?)
        else some controllerMsgId) = (state.threads t).working.bind (state.roots[·]?)
  | _ => True

structure Consistent (state : Calling) : Prop where
  nonempty : ∀ msgId ∈ state.roots, msgId ≠ []
  requests : ∀ request ∈ state.requests, request.tree < state.roots.length
  latest : ∀ t tree, (state.threads t).latest = some tree → tree < state.roots.length
  working : ∀ t tree, (state.threads t).working = some tree →
    tree < state.roots.length ∧ ∃ latest, (state.threads t).latest = some latest
  awaited : ∀ t tree, (t, tree) ∈ state.awaited →
    tree < state.roots.length ∧ ∃ latest, (state.threads t).latest = some latest

end Calling

theorem MsgIDUtil.genMsgId_ne_nil {msgIds next : MsgIdThread} {random : Random} {msgId : Bytes}
    (generated : genMsgId msgIds random.val = some (msgId, next)) : msgId ≠ [] := by
  by_cases draws : msgIds.Draws
  · rcases genMsgId_of_draws draws random with ⟨drawn, isMsgId, found⟩
    rw [found] at generated
    cases generated
    have length := isMsgId.length
    intro empty
    rw [empty] at length
    cases length
  · rw [genMsgId, if_neg draws, Option.map_eq_some_iff] at generated
    rcases generated with ⟨i, found, same⟩
    cases same
    have nonempty : msgIds.msgIdNo ≠ [] := fun empty => draws (.inl empty)
    rcases eq_of_skipNines found nonempty with ⟨front, digit, rfl, _, shape⟩
    rw [shape, countUp_append]
    exact List.append_ne_nil_of_right_ne_nil front (List.cons_ne_nil _ _)

theorem RpcChannel.requestMsgId_ne_nil {controllerMsgId runTime msgId : Bytes}
    {msgIds next : MsgIdThread} {random : Random}
    (chosen : requestMsgId controllerMsgId runTime msgIds random = some (msgId, next)) :
    msgId ≠ [] := by
  rw [requestMsgId] at chosen
  split at chosen
  · split at chosen
    · exact genMsgId_ne_nil chosen
    · cases chosen
      assumption
  · cases chosen
    assumption

namespace Calling

variable {state next : Calling} {event : CallingEvent}

@[grind =] theorem threads_setThread (state : Calling) (t other : Nat) (thread : CallingThread) :
    (state.setThread t thread).threads other =
      if other = t then thread else state.threads other := by
  simp only [setThread, Function.update_apply]

@[grind =] theorem roots_setThread (state : Calling) (t : Nat) (thread : CallingThread) :
    (state.setThread t thread).roots = state.roots := rfl

/-! ### What each step does -/

theorem step_begin {t : Nat} {controllerMsgId : Bytes} {random : Random}
    (stepped : state.step (.begin t controllerMsgId random) = some next) :
    ∃ msgId msgIds,
      RpcChannel.requestMsgId controllerMsgId (state.threads t).runTime (state.threads t).msgIds
        random = some (msgId, msgIds) ∧
      next = (state.setThread t { state.threads t with msgIds }).beginTree msgId := by
  simp only [step, Option.bind_eq_bind, Option.bind_eq_some_iff, Option.guard_eq_some',
    Option.some.injEq] at stepped
  rcases stepped with ⟨_, _, ⟨msgId, msgIds⟩, chosen, rfl⟩
  exact ⟨msgId, msgIds, chosen, rfl⟩

theorem step_dispatch {t place : Nat} (stepped : state.step (.dispatch t place) = some next) :
    ∃ request ∈ state.requests, next = state.setThread t { state.threads t with
      runTime := request.msgId, working := some request.tree, latest := some request.tree } := by
  simp only [step, Option.bind_eq_bind, Option.bind_eq_some_iff, Option.guard_eq_some',
    Option.some.injEq] at stepped
  rcases stepped with ⟨_, _, request, there, rfl⟩
  exact ⟨request, List.mem_of_getElem? there, rfl⟩

theorem step_resume {place : Nat} (stepped : state.step (.resume place) = some next) :
    ∃ t tree, (t, tree) ∈ state.awaited ∧
      next = state.setThread t { state.threads t with working := some tree } := by
  simp only [step, Option.bind_eq_bind, Option.bind_eq_some_iff, Option.guard_eq_some',
    Option.some.injEq] at stepped
  rcases stepped with ⟨⟨t, tree⟩, there, _, _, rfl⟩
  exact ⟨t, tree, List.mem_of_getElem? there, rfl⟩

theorem step_call {t : Nat} {controllerMsgId : Bytes} {random : Random}
    (stepped : state.step (.call t controllerMsgId random) = some next) :
    ∃ tree msgId msgIds, (state.threads t).working = some tree ∧
      RpcChannel.requestMsgId controllerMsgId (state.threads t).runTime (state.threads t).msgIds
        random = some (msgId, msgIds) ∧
      next = (state.setThread t { state.threads t with msgIds }).callFrom t tree msgId := by
  simp only [step, Option.bind_eq_bind, Option.bind_eq_some_iff, Option.some.injEq] at stepped
  rcases stepped with ⟨tree, works, ⟨msgId, msgIds⟩, chosen, rfl⟩
  exact ⟨tree, msgId, msgIds, works, chosen, rfl⟩

theorem step_finish {t : Nat} (stepped : state.step (.finish t) = some next) :
    next = state.setThread t { state.threads t with working := none } := by
  simp only [step, Option.bind_eq_bind, Option.bind_eq_some_iff, Option.some.injEq] at stepped
  rcases stepped with ⟨_, _, rfl⟩
  rfl

theorem Consistent.initial : ({} : Calling).Consistent := by
  constructor <;> simp

theorem Consistent.step (consistent : state.Consistent) (stepped : state.step event = some next) :
    next.Consistent := by
  rcases consistent with ⟨nonempty, requests, latest, working, awaited⟩
  cases event with
  | begin t controllerMsgId random =>
      rcases step_begin stepped with ⟨msgId, msgIds, chosen, rfl⟩
      have given := RpcChannel.requestMsgId_ne_nil chosen
      simp only [beginTree, setThread]
      constructor <;> grind
  | dispatch t place =>
      rcases step_dispatch stepped with ⟨request, sent, rfl⟩
      have known := requests request sent
      simp only [setThread]
      constructor <;> grind
  | resume place =>
      rcases step_resume stepped with ⟨t, tree, waits, rfl⟩
      have known := awaited t tree waits
      simp only [setThread]
      constructor <;> grind
  | call t controllerMsgId random =>
      rcases step_call stepped with ⟨tree, msgId, msgIds, works, chosen, rfl⟩
      have known := working t tree works
      simp only [callFrom, setThread]
      constructor <;> grind
  | finish t =>
      cases step_finish stepped
      simp only [setThread]
      constructor <;> grind

/-- All steps but the calls of services keep the ids in order. -/
theorem Traced.step (traced : state.Traced) (consistent : state.Consistent)
    (other : ∀ t controllerMsgId random, event ≠ .call t controllerMsgId random)
    (stepped : state.step event = some next) : next.Traced := by
  rcases traced with ⟨requests, runTime⟩
  have bounded := consistent.requests
  have latest := consistent.latest
  cases event with
  | begin t controllerMsgId random =>
      rcases step_begin stepped with ⟨msgId, msgIds, chosen, rfl⟩
      simp only [beginTree, setThread]
      constructor <;> grind
  | dispatch t place =>
      rcases step_dispatch stepped with ⟨request, sent, rfl⟩
      have bears := requests request sent
      simp only [setThread]
      constructor <;> grind
  | resume place =>
      rcases step_resume stepped with ⟨t, tree, _, rfl⟩
      simp only [setThread]
      constructor <;> grind
  | call t controllerMsgId random => exact absurd rfl (other t controllerMsgId random)
  | finish t =>
      cases step_finish stepped
      simp only [setThread]
      constructor <;> grind

/-- Of two ids that a call can take, the `RunTime` has that of the last request. -/
theorem Traced.call_iff (traced : state.Traced) (consistent : state.Consistent) {t : Nat}
    {controllerMsgId : Bytes} {random : Random}
    (stepped : state.step (.call t controllerMsgId random) = some next) :
    next.Traced ↔ state.Inherits (.call t controllerMsgId random) := by
  rcases step_call stepped with ⟨tree, msgId, msgIds, works, chosen, rfl⟩
  rcases consistent.working t tree works with ⟨_, latest, isLatest⟩
  have left := traced.runTime t latest isLatest
  have nonempty := consistent.nonempty _ (List.mem_of_getElem? left)
  have taken : some msgId =
      if controllerMsgId = [] then state.roots[latest]? else some controllerMsgId := by
    rw [RpcChannel.requestMsgId] at chosen
    rw [if_neg nonempty] at chosen
    split at chosen
    case isTrue unset =>
      cases chosen
      rw [if_pos unset, left]
    case isFalse given =>
      cases chosen
      rw [if_neg given]
  have inherits_iff : state.Inherits (.call t controllerMsgId random) ↔
      state.roots[tree]? = some msgId := by
    rw [Inherits, works, isLatest, Option.bind_some, Option.bind_some, ← taken]
    exact eq_comm
  rw [inherits_iff]
  constructor
  · intro after
    exact after.requests ⟨tree, msgId⟩ (List.mem_append_right _ List.mem_cons_self)
  · intro bears
    rcases traced with ⟨requests, runTime⟩
    simp only [callFrom, setThread]
    constructor <;> grind

theorem Traced.step_iff (traced : state.Traced) (consistent : state.Consistent)
    (stepped : state.step event = some next) : next.Traced ↔ state.Inherits event := by
  cases event with
  | call => exact traced.call_iff consistent stepped
  | begin | dispatch | resume | finish =>
      have after := traced.step consistent (fun _ _ _ => by simp) stepped
      exact ⟨fun _ => trivial, fun _ => after⟩

theorem Traced.initial : ({} : Calling).Traced := by
  constructor <;> simp

end Calling

/-! ## Ids of different trees -/

namespace MsgIDUtil

/-- The state of a thread that has drawn at most once. -/
structure Generator.Early (generator : Generator) (calls : Nat) : Prop where
  counting : generator.Counting
  length : generator.ids.length = calls
  maxNines : generator.ids ≠ [] → generator.thread.maxMsgIdNo = nines
  increasing : generator.ids.Pairwise fun earlier later => digits earlier < digits later

theorem Generator.Early.recognises {generator : Generator} {calls : Nat}
    (early : generator.Early calls) : generator.Recognises := by
  intro allNines
  rcases early.counting.fresh_or with ⟨_, fresh⟩ | ⟨last, _⟩
  · rw [fresh] at allNines
    cases allNines
  · apply early.maxNines
    intro none
    rw [none] at last
    cases last

theorem Generator.maxMsgIdNo_call {generator : Generator} (counts : ¬generator.thread.Draws)
    (random : Random) :
    (generator.call random).thread.maxMsgIdNo = generator.thread.maxMsgIdNo := by
  rw [Generator.call, genMsgId, if_neg counts]
  cases skipNines generator.thread.msgIdNo (generator.thread.msgIdNo.length - 1) with
  | none => rfl
  | some i => rfl

theorem Generator.Early.call {generator : Generator} {calls : Nat}
    (early : generator.Early calls) (noNines : nines ∉ generator.ids) (random : Random) :
    (generator.call random).Early (calls + 1) := by
  have draws_iff := early.counting.draws_iff early.recognises
  rcases early.counting.call early.recognises random with ⟨succeeds, counting⟩
  rcases succeeds.returned with ⟨id, appended, isMsgId, successor⟩
  constructor
  · exact counting
  · rw [appended, List.length_append, early.length]
    rfl
  · intro _
    by_cases first : generator.ids = []
    · rcases early.counting.fresh_or with ⟨_, fresh⟩ | ⟨last, _⟩
      · rcases genMsgId_of_draws (draws_iff.mpr (.inl first)) random with ⟨drawn, _, generated⟩
        rw [Generator.call, generated, fresh]
        rfl
      · rw [first] at last
        cases last
    · have counts : ¬generator.thread.Draws := by
        rw [draws_iff, not_or]
        exact ⟨first, fun last => noNines (List.mem_of_getLast? last)⟩
      rw [generator.maxMsgIdNo_call counts]
      exact early.maxNines first
  · rw [appended, List.pairwise_append]
    refine ⟨early.increasing, List.pairwise_singleton _ _, ?_⟩
    intro earlier member later isLater
    rw [List.mem_singleton] at isLater
    subst isLater
    have counts : ¬generator.thread.Draws := by
      rw [draws_iff, not_or]
      exact ⟨List.ne_nil_of_mem member, fun last => noNines (List.mem_of_getLast? last)⟩
    rcases successor counts with ⟨previous, isLast, next⟩
    have upTo := early.increasing
    rcases List.getLast?_eq_some_iff.mp isLast with ⟨front, shape⟩
    rw [shape] at member upTo
    rcases List.mem_append.mp member with before | same
    · have below := (List.pairwise_append.mp upTo).2.2 earlier before previous
        List.mem_cons_self
      omega
    · rw [List.mem_singleton] at same
      subst same
      omega

theorem Generator.Early.injective {generator : Generator} {calls first second : Nat} {id : Bytes}
    (early : generator.Early calls) (atFirst : generator.ids[first]? = some id)
    (atSecond : generator.ids[second]? = some id) : first = second := by
  rcases List.getElem?_eq_some_iff.mp atFirst with ⟨within, isFirst⟩
  rcases List.getElem?_eq_some_iff.mp atSecond with ⟨within', isSecond⟩
  have increasing := List.pairwise_iff_getElem.mp early.increasing
  rcases Nat.lt_trichotomy first second with before | same | behind
  · have less := increasing first second within within' before
    rw [isFirst, isSecond] at less
    omega
  · exact same
  · have less := increasing second first within' within behind
    rw [isFirst, isSecond] at less
    omega

end MsgIDUtil

namespace Calling

variable {state next : Calling} {event : CallingEvent}

/-- All trees begin at one client, which leaves their ids to `GenMsgID`, and has not yet
counted up to nines. -/
def BegunBy (client : Nat) (state : Calling) : CallingEvent → Prop
  | .begin t controllerMsgId _ => t = client ∧ controllerMsgId = [] ∧ nines ∉ state.roots
  | .dispatch t _ => t ≠ client
  | _ => True

/-- The id of a request says to which tree of calls it belongs. -/
def Identifies (state : Calling) : Prop :=
  ∀ first ∈ state.requests, ∀ second ∈ state.requests,
    (first.msgId = second.msgId ↔ first.tree = second.tree)

/-- The ids that the client has made up. -/
def clientIds (client : Nat) (state : Calling) : Generator where
  thread := (state.threads client).msgIds
  ids := state.roots

/-- What holds whether the calls of services bear the right ids or not. -/
structure Begun (client : Nat) (state : Calling) : Prop where
  consistent : state.Consistent
  rooted : ∀ tree msgId, state.roots[tree]? = some msgId → ⟨tree, msgId⟩ ∈ state.requests
  dispatched : ∀ t tree, (state.threads t).latest = some tree →
    ⟨tree, (state.threads t).runTime⟩ ∈ state.requests
  early : (state.clientIds client).Early state.roots.length
  undispatched : (state.threads client).latest = none
  unset : (state.threads client).runTime = []

theorem dispatched_of_update {t : Nat} {thread : CallingThread}
    (updated : next.threads = Function.update state.threads t thread)
    (sameLatest : thread.latest = (state.threads t).latest)
    (sameRunTime : thread.runTime = (state.threads t).runTime) (other : Nat) :
    (next.threads other).latest = (state.threads other).latest ∧
      (next.threads other).runTime = (state.threads other).runTime := by
  rw [updated, Function.update_apply]
  split
  · next same =>
      rw [same]
      exact ⟨sameLatest, sameRunTime⟩
  · exact ⟨rfl, rfl⟩

/-- Only a dispatch changes a `RunTime`. -/
theorem dispatched_step (stepped : state.step event = some next)
    (other : ∀ t place, event ≠ .dispatch t place) (t : Nat) :
    (next.threads t).latest = (state.threads t).latest ∧
      (next.threads t).runTime = (state.threads t).runTime := by
  cases event with
  | begin client controllerMsgId random =>
      rcases step_begin stepped with ⟨msgId, msgIds, _, rfl⟩
      apply dispatched_of_update <;> rfl
  | dispatch server place => exact absurd rfl (other server place)
  | resume place =>
      rcases step_resume stepped with ⟨server, tree, _, rfl⟩
      apply dispatched_of_update <;> rfl
  | call server controllerMsgId random =>
      rcases step_call stepped with ⟨tree, msgId, msgIds, _, _, rfl⟩
      apply dispatched_of_update <;> rfl
  | finish server =>
      cases step_finish stepped
      apply dispatched_of_update <;> rfl

/-- A step adds at most one request, and with it the root of a tree that it begins. -/
theorem requests_step (stepped : state.step event = some next) :
    ∃ sent, next.requests = state.requests ++ sent ∧
      (next.roots = state.roots ∨
        ∃ msgId, next.roots = state.roots ++ [msgId] ∧ sent = [⟨state.roots.length, msgId⟩]) := by
  cases event with
  | begin t controllerMsgId random =>
      rcases step_begin stepped with ⟨msgId, msgIds, _, rfl⟩
      exact ⟨_, rfl, .inr ⟨msgId, rfl, rfl⟩⟩
  | dispatch t place =>
      rcases step_dispatch stepped with ⟨request, _, rfl⟩
      exact ⟨[], (List.append_nil _).symm, .inl rfl⟩
  | resume place =>
      rcases step_resume stepped with ⟨t, tree, _, rfl⟩
      exact ⟨[], (List.append_nil _).symm, .inl rfl⟩
  | call t controllerMsgId random =>
      rcases step_call stepped with ⟨tree, msgId, msgIds, _, _, rfl⟩
      exact ⟨_, rfl, .inl rfl⟩
  | finish t =>
      cases step_finish stepped
      exact ⟨[], (List.append_nil _).symm, .inl rfl⟩

theorem Begun.rooted_step {client tree : Nat} {msgId : Bytes} (begun : state.Begun client)
    (stepped : state.step event = some next) (isRoot : next.roots[tree]? = some msgId) :
    ⟨tree, msgId⟩ ∈ next.requests := by
  rcases requests_step stepped with ⟨sent, requests, same | ⟨root, roots, isSent⟩⟩
  · rw [same] at isRoot
    rw [requests]
    exact List.mem_append_left _ (begun.rooted tree msgId isRoot)
  · rw [requests, isSent]
    rw [roots, List.getElem?_append] at isRoot
    split at isRoot
    · exact List.mem_append_left _ (begun.rooted tree msgId isRoot)
    · rcases List.getElem?_eq_some_iff.mp isRoot with ⟨within, isRoot⟩
      rw [List.length_singleton] at within
      have last : tree = state.roots.length := by omega
      rw [List.getElem_singleton] at isRoot
      rw [last, isRoot]
      exact List.mem_append_right _ List.mem_cons_self

theorem Begun.dispatched_step {client t tree : Nat} (begun : state.Begun client)
    (stepped : state.step event = some next) (isLatest : (next.threads t).latest = some tree) :
    ⟨tree, (next.threads t).runTime⟩ ∈ next.requests := by
  have undisturbed : (∀ t place, event ≠ .dispatch t place) →
      ⟨tree, (next.threads t).runTime⟩ ∈ next.requests := by
    intro other
    rcases Calling.dispatched_step stepped other t with ⟨sameLatest, sameRunTime⟩
    rcases requests_step stepped with ⟨sent, requests, _⟩
    rw [sameLatest] at isLatest
    rw [sameRunTime, requests]
    exact List.mem_append_left _ (begun.dispatched t tree isLatest)
  cases event with
  | dispatch server place =>
      rcases step_dispatch stepped with ⟨request, sent, rfl⟩
      rw [threads_setThread] at isLatest ⊢
      split at isLatest
      · next same =>
          cases isLatest
          rw [if_pos same]
          exact sent
      · next other =>
          rw [if_neg other]
          exact begun.dispatched t tree isLatest
  | begin | resume | call | finish => exact undisturbed nofun

theorem Begun.idle {client : Nat} (begun : state.Begun client) :
    (state.threads client).working = none := by
  cases works : (state.threads client).working with
  | none => rfl
  | some tree =>
      rcases (begun.consistent.working client tree works).2 with ⟨latest, isLatest⟩
      rw [begun.undispatched] at isLatest
      cases isLatest

theorem Begun.undispatched_step {client : Nat} (begun : state.Begun client)
    (stepped : state.step event = some next) (allowed : state.BegunBy client event) :
    (next.threads client).latest = none ∧ (next.threads client).runTime = [] := by
  rw [← begun.undispatched, ← begun.unset]
  cases event with
  | dispatch t place =>
      have other : client ≠ t := Ne.symm allowed
      rcases step_dispatch stepped with ⟨request, _, rfl⟩
      rw [threads_setThread, if_neg other]
      exact ⟨rfl, rfl⟩
  | begin | resume | call | finish => exact Calling.dispatched_step stepped nofun client

theorem Begun.early_step {client : Nat} (begun : state.Begun client)
    (stepped : state.step event = some next) (allowed : state.BegunBy client event) :
    (next.clientIds client).Early next.roots.length := by
  have early := begun.early
  have idle := begun.idle
  have remains : ∀ {t : Nat} {thread : CallingThread},
      (t = client → thread.msgIds = (state.threads client).msgIds) →
      ((state.setThread t thread).clientIds client).Early state.roots.length := by
    intro t thread same
    have sameIds : (state.setThread t thread).clientIds client = state.clientIds client := by
      rw [clientIds, clientIds, threads_setThread, roots_setThread]
      grind
    rw [sameIds]
    exact early
  cases event with
  | begin t controllerMsgId random =>
      rcases allowed with ⟨rfl, rfl, noNines⟩
      rcases step_begin stepped with ⟨msgId, msgIds, chosen, rfl⟩
      rw [RpcChannel.requestMsgId, if_pos rfl, if_pos begun.unset] at chosen
      have called := early.call noNines random
      rw [Generator.call, clientIds, chosen] at called
      simpa [clientIds, beginTree, setThread] using called
  | dispatch t place =>
      rcases step_dispatch stepped with ⟨request, _, rfl⟩
      exact remains fun same => absurd same allowed
  | resume place =>
      rcases step_resume stepped with ⟨t, tree, _, rfl⟩
      apply remains
      intro same
      rw [same]
  | call t controllerMsgId random =>
      rcases step_call stepped with ⟨tree, msgId, msgIds, works, _, rfl⟩
      apply remains
      intro same
      rw [same, idle] at works
      cases works
  | finish t =>
      cases step_finish stepped
      apply remains
      intro same
      rw [same]

theorem Begun.step {client : Nat} (begun : state.Begun client)
    (stepped : state.step event = some next) (allowed : state.BegunBy client event) :
    next.Begun client where
  consistent := begun.consistent.step stepped
  rooted _ _ isRoot := begun.rooted_step stepped isRoot
  dispatched _ _ isLatest := begun.dispatched_step stepped isLatest
  early := begun.early_step stepped allowed
  undispatched := (begun.undispatched_step stepped allowed).1
  unset := (begun.undispatched_step stepped allowed).2

theorem Begun.initial (client : Nat) : ({} : Calling).Begun client where
  consistent := Consistent.initial
  rooted := by simp
  dispatched := by simp
  early := ⟨⟨rfl, .inl ⟨rfl, rfl⟩, ⟨0, rfl⟩⟩, rfl, fun some => absurd rfl some, .nil⟩
  undispatched := rfl
  unset := rfl

/-- The roots of the trees have different ids, and are among the requests. -/
theorem Begun.identifies_iff {client : Nat} (begun : state.Begun client) :
    state.Identifies ↔ state.Traced := by
  constructor
  · intro identifies
    have bears : ∀ request ∈ state.requests,
        state.roots[request.tree]? = some request.msgId := by
      intro request sent
      have known := begun.consistent.requests request sent
      have isRoot := List.getElem?_eq_getElem known
      have root := begun.rooted _ _ isRoot
      rw [isRoot]
      exact congrArg some ((identifies _ root request sent).mpr rfl)
    constructor
    · exact bears
    · intro t tree isLatest
      exact bears _ (begun.dispatched t tree isLatest)
  · intro traced first isFirst second isSecond
    have firstBears := traced.requests first isFirst
    have secondBears := traced.requests second isSecond
    constructor
    · intro same
      rw [same] at firstBears
      exact begun.early.injective firstBears secondBears
    · intro same
      rw [same, secondBears] at firstBears
      exact (Option.some.inj firstBears).symm

/-- Where all trees begin at one client, the id of a request always says to which of
them it belongs exactly as long as the calls of services inherit the ids. -/
theorem msgId_identifies_tree (client : Nat) (events : List CallingEvent) :
    (system.restrict (BegunBy client)).Always Identifies {} events ↔
      (system.restrict (BegunBy client)).EachStep
        (fun current event _ => current.Inherits event) {} events := by
  have kept : ∀ (current : Calling) event next, current.Begun client →
      (system.restrict (BegunBy client)).Step current event next → next.Begun client := by
    intro current event next begun step
    exact begun.step step.1 step.2
  have keeps_iff : ∀ (current : Calling) event next, current.Begun client →
      current.Identifies → (system.restrict (BegunBy client)).Step current event next →
      (next.Identifies ↔ current.Inherits event) := by
    intro current event next begun identifies step
    have traced := begun.identifies_iff.mp identifies
    rw [(begun.step step.1 step.2).identifies_iff]
    exact traced.step_iff begun.consistent step.1
  have start := Begun.initial client
  exact Transition.System.always_iff kept keeps_iff start
    (start.identifies_iff.mpr Traced.initial) events

end Calling

end NetRpc
