import Mathlib.Data.List.Induction
import NetRpc.EventLoop.Epoll
import NetRpc.Foundation.Transition

/-! # The interest set under requests of several threads

`addEpollEvent` and `deleteEpollEvent` take effect at once on the thread of the
loop, while those of other threads are queued as tasks. So a request of the
loop's thread can overtake an older one for the same descriptor.

The descriptors stay open here.
-/

namespace NetRpc

inductive EpollRequest
  | add (fd : Int)
  | delete (fd : Int)
deriving DecidableEq

namespace EpollRequest

def fd : EpollRequest → Int
  | .add fd => fd
  | .delete fd => fd

def wants : EpollRequest → Bool
  | .add _ => true
  | .delete _ => false

/-- `ADD_TO_EPOLL` and `DELETE_TO_EPOLL`, with the events of the FdEvents at that time. -/
def apply (events : Int → EpollEvents) (epoll : Epoll) : EpollRequest → Epoll
  | .add fd => epoll.addEpollEvent ⟨fd, events fd⟩
  | .delete fd => epoll.deleteEpollEvent ⟨fd, events fd⟩

/-- What the request leaves in the interest set. -/
def entry (events : Int → EpollEvents) : EpollRequest → Option EpollEvents
  | .add fd => some (events fd)
  | .delete _ => none

/-- The last request for a descriptor. -/
def lastFor (requests : List EpollRequest) (fd : Int) : Option EpollRequest :=
  (requests.filter (·.fd = fd)).getLast?

end EpollRequest

structure SharedLoop where
  epoll : Epoll := ⟨∅, ⟨∅, fun _ => none⟩, []⟩
  /-- `m_listen_events` of the FdEvents. -/
  events : Int → EpollEvents := fun _ => {}
  /-- The tasks of other threads, the oldest first. -/
  tasks : List EpollRequest := []
  /-- The last request for the descriptor was to add it. -/
  wanted : Int → Bool := fun _ => false
  /-- The FdEvent has been changed after the last request. -/
  changed : Int → Bool := fun _ => false

inductive SharedLoopEvent
  | opened (fd : Int)
  | listen (fd : Int) (trigger : TriggerEvent)
  | cancle (fd : Int) (trigger : TriggerEvent)
  | request (inLoopThread : Bool) (request : EpollRequest)
  /-- The loop runs the next of these tasks. -/
  | run
deriving DecidableEq

namespace SharedLoop

def setEvents (state : SharedLoop) (fd : Int) (events : EpollEvents) : SharedLoop :=
  { state with
    events := Function.update state.events fd events
    changed := Function.update state.changed fd true }

def record (state : SharedLoop) (request : EpollRequest) : SharedLoop :=
  { state with
    wanted := Function.update state.wanted request.fd request.wants
    changed := Function.update state.changed request.fd false }

/-- `addEpollEvent` or `deleteEpollEvent`. -/
def perform (state : SharedLoop) (inLoopThread : Bool) (request : EpollRequest) : SharedLoop :=
  if inLoopThread then { state with epoll := request.apply state.events state.epoll }
  else { state with tasks := state.tasks ++ [request] }

def step (state : SharedLoop) : SharedLoopEvent → Option SharedLoop
  | .opened fd => some { state with epoll := state.epoll.opened fd }
  | .listen fd trigger =>
      some (state.setEvents fd ((FdEvent.mk fd (state.events fd)).listen trigger).listenEvents)
  | .cancle fd trigger =>
      some (state.setEvents fd ((FdEvent.mk fd (state.events fd)).cancle trigger).listenEvents)
  | .request inLoopThread request =>
      if request.fd ∈ state.epoll.kernel.descriptors then
        some ((state.perform inLoopThread request).record request)
      else none
  | .run =>
      match state.tasks with
      | [] => none
      | request :: tasks =>
          some { state with epoll := request.apply state.events state.epoll, tasks }

def system : Transition.System SharedLoop SharedLoopEvent where
  Initial state := state = {}
  Step state event next := state.step event = some next

/-- The bookkeeping once the loop has run its tasks. -/
def settled (state : SharedLoop) : Epoll :=
  state.tasks.foldl (EpollRequest.apply state.events) state.epoll

/-- The interest set comes to what was requested last for each descriptor, with the
events that its FdEvent listens to. -/
structure Follows (state : SharedLoop) : Prop where
  present : ∀ fd, (state.settled.kernel.interest fd).isSome = state.wanted fd
  upToDate : ∀ fd, state.wanted fd → state.changed fd = false →
    state.settled.kernel.interest fd = some (state.events fd)

/-- The last request that is queued for the descriptor does not want the opposite of what
the loop's own thread asks for. -/
def KeepsOrder (state : SharedLoop) : SharedLoopEvent → Prop
  | .request true request =>
      ∀ last, EpollRequest.lastFor state.tasks request.fd = some last → last = request
  | _ => True

structure Consistent (state : SharedLoop) : Prop where
  openOnly : state.epoll.kernel.OpenOnly
  inSync : state.epoll.InSync
  isOpen : ∀ request ∈ state.tasks, request.fd ∈ state.epoll.kernel.descriptors

end SharedLoop

namespace EpollRequest

variable {epoll : Epoll} {events : Int → EpollEvents} {request : EpollRequest}
  {requests : List EpollRequest}

theorem apply_openOnly (openOnly : epoll.kernel.OpenOnly) (events : Int → EpollEvents)
    (request : EpollRequest) : (request.apply events epoll).kernel.OpenOnly := by
  cases request with
  | add fd => exact Epoll.addEpollEvent_openOnly openOnly _
  | delete fd => exact Epoll.deleteEpollEvent_openOnly openOnly _

theorem apply_inSync (openOnly : epoll.kernel.OpenOnly) (inSync : epoll.InSync)
    (isOpen : request.fd ∈ epoll.kernel.descriptors) (events : Int → EpollEvents) :
    (request.apply events epoll).InSync := by
  cases request with
  | add fd => exact (Epoll.addEpollEvent_inSync_iff openOnly inSync _).mpr isOpen
  | delete fd => exact Epoll.deleteEpollEvent_inSync openOnly inSync _

theorem apply_descriptors (epoll : Epoll) (events : Int → EpollEvents) (request : EpollRequest) :
    (request.apply events epoll).kernel.descriptors = epoll.kernel.descriptors := by
  cases request with
  | add fd => exact Epoll.addEpollEvent_descriptors epoll _
  | delete fd => exact Epoll.deleteEpollEvent_descriptors epoll _

theorem apply_interest_of_ne {fd : Int} (other : fd ≠ request.fd) (epoll : Epoll)
    (events : Int → EpollEvents) :
    (request.apply events epoll).kernel.interest fd = epoll.kernel.interest fd := by
  cases request with
  | add fd => exact Kernel.epollCtl_interest_of_ne other _ _
  | delete fd => exact Epoll.deleteEpollEvent_interest_of_ne other epoll

theorem apply_interest_self (openOnly : epoll.kernel.OpenOnly) (inSync : epoll.InSync)
    (isOpen : request.fd ∈ epoll.kernel.descriptors) (events : Int → EpollEvents) :
    (request.apply events epoll).kernel.interest request.fd = request.entry events := by
  cases request with
  | add fd =>
      have chosen : (epoll.kernel.interest fd).isSome =
          (if fd ∈ epoll.listenFds then EpollOp.mod else .add).wantsPresent := by
        split
        case isTrue listed => exact (inSync.mirrors _).mp listed
        case isFalse absent =>
          rw [inSync.mirrors, Bool.not_eq_true] at absent
          exact absent
      have kept : (if fd ∈ epoll.listenFds then EpollOp.mod else .add).entry ⟨fd, events fd⟩ =
          some (events fd) := by
        split <;> rfl
      exact (Kernel.epollCtl_interest_self isOpen chosen).trans kept
  | delete fd =>
      by_cases listed : fd ∈ epoll.listenFds
      · exact Epoll.deleteEpollEvent_interest openOnly listed
      · have absent := listed
        rw [inSync.mirrors, Option.not_isSome_iff_eq_none] at absent
        simp only [apply, Epoll.deleteEpollEvent, if_neg listed]
        exact absent

theorem entry_isSome (events : Int → EpollEvents) (request : EpollRequest) :
    (request.entry events).isSome = request.wants := by
  cases request with
  | add fd => rfl
  | delete fd => rfl

theorem mem_of_lastFor {fd : Int} {last : EpollRequest} (found : lastFor requests fd = some last) :
    last ∈ requests ∧ last.fd = fd := by
  have member := List.mem_filter.mp (List.mem_of_getLast? found)
  exact ⟨member.1, of_decide_eq_true member.2⟩

theorem lastFor_concat (requests : List EpollRequest) (request : EpollRequest) (fd : Int) :
    lastFor (requests ++ [request]) fd =
      if request.fd = fd then some request else lastFor requests fd := by
  rw [lastFor, List.filter_append]
  by_cases same : request.fd = fd
  · rw [if_pos same, List.filter_singleton, decide_eq_true same]
    exact List.getLast?_concat
  · rw [if_neg same, List.filter_singleton, decide_eq_false same]
    exact congrArg List.getLast? (List.append_nil _)

/-- What the requests keep, one behind the other. -/
theorem foldl_keeps (openOnly : epoll.kernel.OpenOnly) (inSync : epoll.InSync)
    (isOpen : ∀ request ∈ requests, request.fd ∈ epoll.kernel.descriptors)
    (events : Int → EpollEvents) :
    (requests.foldl (apply events) epoll).kernel.OpenOnly ∧
      (requests.foldl (apply events) epoll).InSync ∧
      (requests.foldl (apply events) epoll).kernel.descriptors = epoll.kernel.descriptors := by
  induction requests using List.reverseRecOn with
  | nil => exact ⟨openOnly, inSync, rfl⟩
  | append_singleton requests request induction =>
      rw [List.forall_mem_append, List.forall_mem_singleton] at isOpen
      rcases induction isOpen.1 with ⟨stillOnly, stillInSync, same⟩
      rw [List.foldl_append, List.foldl_cons, List.foldl_nil]
      refine ⟨apply_openOnly stillOnly events request, ?_, ?_⟩
      · exact apply_inSync stillOnly stillInSync (same ▸ isOpen.2) events
      · rw [apply_descriptors, same]

/-- Of requests that are run one behind the other, the last one for a descriptor decides. -/
theorem foldl_interest (openOnly : epoll.kernel.OpenOnly) (inSync : epoll.InSync)
    (isOpen : ∀ request ∈ requests, request.fd ∈ epoll.kernel.descriptors)
    (events : Int → EpollEvents) (fd : Int) :
    (requests.foldl (apply events) epoll).kernel.interest fd =
      match lastFor requests fd with
      | some last => last.entry events
      | none => epoll.kernel.interest fd := by
  induction requests using List.reverseRecOn with
  | nil => rfl
  | append_singleton requests request induction =>
      rw [List.forall_mem_append, List.forall_mem_singleton] at isOpen
      rcases foldl_keeps openOnly inSync isOpen.1 events with ⟨stillOnly, stillInSync, same⟩
      rw [List.foldl_append, List.foldl_cons, List.foldl_nil, lastFor_concat]
      by_cases self : request.fd = fd
      · subst self
        rw [if_pos rfl]
        exact apply_interest_self stillOnly stillInSync (same ▸ isOpen.2) events
      · rw [if_neg self, apply_interest_of_ne (Ne.symm self)]
        exact induction isOpen.1

end EpollRequest

namespace SharedLoop

variable {state next : SharedLoop} {event : SharedLoopEvent}

theorem Consistent.initial : ({} : SharedLoop).Consistent := by
  constructor
  · intro fd present
    cases present
  · constructor
    · intro fd
      exact iff_of_false (Finset.notMem_empty fd) Bool.false_ne_true
    · rfl
  · intro request member
    cases member

theorem Consistent.apply (consistent : state.Consistent) {request : EpollRequest}
    (isOpen : request.fd ∈ state.epoll.kernel.descriptors) {tasks : List EpollRequest}
    (queued : ∀ request ∈ tasks, request ∈ state.tasks) :
    ({ state with epoll := request.apply state.events state.epoll, tasks } :
      SharedLoop).Consistent := by
  have same := EpollRequest.apply_descriptors state.epoll state.events request
  constructor
  · exact EpollRequest.apply_openOnly consistent.openOnly state.events request
  · exact EpollRequest.apply_inSync consistent.openOnly consistent.inSync isOpen state.events
  · intro task member
    rw [same]
    exact consistent.isOpen task (queued task member)

theorem Consistent.step (consistent : state.Consistent) (stepped : state.step event = some next) :
    next.Consistent := by
  cases event with
  | opened fd =>
      cases stepped
      constructor
      · exact consistent.openOnly.opened fd
      · exact Epoll.opened_inSync consistent.inSync fd
      · intro request member
        have isOpen := consistent.isOpen request member
        simp only [Epoll.opened, Kernel.opened]
        split
        · exact Finset.mem_insert_of_mem isOpen
        · exact isOpen
  | listen fd trigger =>
      cases stepped
      exact ⟨consistent.openOnly, consistent.inSync, consistent.isOpen⟩
  | cancle fd trigger =>
      cases stepped
      exact ⟨consistent.openOnly, consistent.inSync, consistent.isOpen⟩
  | request inLoopThread request =>
      rcases Option.ite_none_right_eq_some.mp stepped with ⟨isOpen, same⟩
      cases same
      cases inLoopThread with
      | true =>
          have applied := consistent.apply isOpen (fun _ member => member)
          exact ⟨applied.openOnly, applied.inSync, applied.isOpen⟩
      | false =>
          have queued : ∀ task ∈ state.tasks ++ [request],
              task.fd ∈ state.epoll.kernel.descriptors := by
            rw [List.forall_mem_append, List.forall_mem_singleton]
            exact ⟨consistent.isOpen, isOpen⟩
          exact ⟨consistent.openOnly, consistent.inSync, queued⟩
  | run =>
      rw [SharedLoop.step] at stepped
      split at stepped
      · cases stepped
      · next request tasks queue =>
          cases stepped
          have isOpen := consistent.isOpen request (queue ▸ List.mem_cons_self)
          exact consistent.apply isOpen fun _ member => queue ▸ List.mem_cons_of_mem _ member

/-- What the interest set comes to, by the last task for the descriptor. -/
theorem Consistent.settled_interest (consistent : state.Consistent) (fd : Int) :
    state.settled.kernel.interest fd =
      match EpollRequest.lastFor state.tasks fd with
      | some last => last.entry state.events
      | none => state.epoll.kernel.interest fd :=
  EpollRequest.foldl_interest consistent.openOnly consistent.inSync consistent.isOpen
    state.events fd

/-- Where the interest set comes to the same, and the requests are the same. -/
theorem follows_of_same (follows : state.Follows)
    (settles : ∀ fd, next.settled.kernel.interest fd = state.settled.kernel.interest fd)
    (sameEvents : next.events = state.events) (sameWanted : next.wanted = state.wanted)
    (sameChanged : next.changed = state.changed) : next.Follows := by
  rcases follows with ⟨present, upToDate⟩
  constructor
  · intro fd
    rw [settles, sameWanted]
    exact present fd
  · intro fd wanted unchanged
    rw [sameWanted] at wanted
    rw [sameChanged] at unchanged
    rw [settles, sameEvents]
    exact upToDate fd wanted unchanged

theorem Consistent.setEvents (consistent : state.Consistent) (fd : Int) (events : EpollEvents) :
    (state.setEvents fd events).Consistent :=
  ⟨consistent.openOnly, consistent.inSync, consistent.isOpen⟩

/-- A change of an FdEvent reaches the interest set only through the tasks for it. -/
theorem Consistent.interest_setEvents (consistent : state.Consistent) {fd other : Int}
    (different : other ≠ fd) (events : EpollEvents) :
    (state.setEvents fd events).settled.kernel.interest other =
      state.settled.kernel.interest other := by
  rw [(consistent.setEvents fd events).settled_interest, consistent.settled_interest]
  simp only [SharedLoop.setEvents]
  cases last : EpollRequest.lastFor state.tasks other with
  | none => rfl
  | some request =>
      have own := (EpollRequest.mem_of_lastFor last).2
      cases request with
      | add added =>
          rw [← own] at different
          exact congrArg some (Function.update_of_ne different ..)
      | delete deleted => rfl

theorem Consistent.isSome_setEvents (consistent : state.Consistent) (fd : Int)
    (events : EpollEvents) :
    ((state.setEvents fd events).settled.kernel.interest fd).isSome =
      (state.settled.kernel.interest fd).isSome := by
  rw [(consistent.setEvents fd events).settled_interest, consistent.settled_interest]
  simp only [SharedLoop.setEvents]
  cases last : EpollRequest.lastFor state.tasks fd with
  | none => rfl
  | some request => simp only [EpollRequest.entry_isSome]

theorem Follows.setEvents (follows : state.Follows) (consistent : state.Consistent) (fd : Int)
    (events : EpollEvents) : (state.setEvents fd events).Follows := by
  constructor
  · intro other
    by_cases same : other = fd
    · rw [same, consistent.isSome_setEvents]
      exact follows.present fd
    · rw [consistent.interest_setEvents same]
      exact follows.present other
  · intro other wanted unchanged
    by_cases same : other = fd
    · simp [SharedLoop.setEvents, same] at unchanged
    · rw [consistent.interest_setEvents same]
      simp only [SharedLoop.setEvents, Function.update_of_ne same] at unchanged ⊢
      exact follows.upToDate other wanted unchanged

/-- After a request, the interest set follows if it comes to what that asks for. -/
theorem Follows.record_iff (follows : state.Follows) {request : EpollRequest}
    (elsewhere : ∀ fd, fd ≠ request.fd →
      next.settled.kernel.interest fd = state.settled.kernel.interest fd)
    (sameEvents : next.events = state.events) (sameWanted : next.wanted = state.wanted)
    (sameChanged : next.changed = state.changed) :
    (next.record request).Follows ↔
      next.settled.kernel.interest request.fd = request.entry state.events := by
  have settled : (next.record request).settled = next.settled := rfl
  constructor
  · intro after
    have present := after.present request.fd
    have upToDate := after.upToDate request.fd
    rw [settled] at present upToDate
    simp only [record, Function.update_self] at present upToDate
    cases request with
    | add fd =>
        rw [upToDate rfl trivial, sameEvents]
        rfl
    | delete fd => exact Option.isSome_eq_false_iff.mp present |> Option.isNone_iff_eq_none.mp
  · intro asked
    constructor
    · intro fd
      rw [settled]
      by_cases same : fd = request.fd
      · rw [same, asked, EpollRequest.entry_isSome]
        simp only [record, Function.update_self]
      · rw [elsewhere fd same]
        simp only [record, Function.update_of_ne same, sameWanted]
        exact follows.present fd
    · intro fd wanted unchanged
      rw [settled]
      by_cases same : fd = request.fd
      · rw [same, asked]
        simp only [record, same, Function.update_self] at wanted ⊢
        cases request with
        | add added => exact congrArg (fun events => some (events added)) sameEvents.symm
        | delete deleted => cases wanted
      · rw [elsewhere fd same]
        simp only [record, Function.update_of_ne same, sameWanted, sameChanged,
          sameEvents] at wanted unchanged ⊢
        exact follows.upToDate fd wanted unchanged

/-- A task of another thread is run behind all others. -/
theorem settled_queued (state : SharedLoop) (request : EpollRequest) :
    (state.perform false request).settled = request.apply state.events state.settled := by
  simp only [settled, perform, Bool.false_eq_true, if_false, List.foldl_append, List.foldl_cons,
    List.foldl_nil]

theorem Follows.queued (follows : state.Follows) (consistent : state.Consistent)
    {request : EpollRequest} (isOpen : request.fd ∈ state.epoll.kernel.descriptors) :
    ((state.perform false request).record request).Follows := by
  rcases EpollRequest.foldl_keeps consistent.openOnly consistent.inSync consistent.isOpen
    state.events with ⟨openOnly, inSync, same⟩
  have self := EpollRequest.apply_interest_self openOnly inSync (same ▸ isOpen) state.events
  have elsewhere : ∀ fd, fd ≠ request.fd →
      (state.perform false request).settled.kernel.interest fd =
        state.settled.kernel.interest fd := by
    intro fd other
    rw [settled_queued]
    exact EpollRequest.apply_interest_of_ne other state.settled state.events
  rw [follows.record_iff elsewhere rfl rfl rfl, settled_queued]
  exact self

/-- What the loop's own thread asks for is done in front of the tasks. -/
theorem Follows.own_iff (follows : state.Follows) (consistent : state.Consistent)
    {request : EpollRequest} (isOpen : request.fd ∈ state.epoll.kernel.descriptors) :
    ((state.perform true request).record request).Follows ↔
      state.KeepsOrder (.request true request) := by
  have applied : (state.perform true request).Consistent :=
    consistent.apply isOpen (fun _ member => member)
  have elsewhere : ∀ fd, fd ≠ request.fd →
      (state.perform true request).settled.kernel.interest fd =
        state.settled.kernel.interest fd := by
    intro fd other
    have unchanged := EpollRequest.apply_interest_of_ne other state.epoll state.events
    rw [applied.settled_interest, consistent.settled_interest]
    simp only [perform, if_true, unchanged]
  have itself := EpollRequest.apply_interest_self consistent.openOnly consistent.inSync isOpen
    state.events
  rw [follows.record_iff elsewhere rfl rfl rfl, applied.settled_interest, KeepsOrder]
  simp only [perform, if_true]
  cases found : EpollRequest.lastFor state.tasks request.fd with
  | none =>
      refine iff_of_true itself ?_
      intro last isLast
      cases isLast
  | some last =>
      have own := (EpollRequest.mem_of_lastFor found).2
      simp only [Option.some.injEq, forall_eq']
      constructor
      · intro same
        cases last <;> cases request <;> cases own
        · rfl
        · cases same
        · cases same
        · rfl
      · intro same
        rw [same]

theorem Follows.step_iff (follows : state.Follows) (consistent : state.Consistent)
    (stepped : state.step event = some next) : next.Follows ↔ state.KeepsOrder event := by
  have consistentAfter := consistent.step stepped
  cases event with
  | opened fd =>
      cases stepped
      have settles : ∀ other,
          ({ state with epoll := state.epoll.opened fd } :
            SharedLoop).settled.kernel.interest other =
            state.settled.kernel.interest other := by
        intro other
        rw [consistentAfter.settled_interest, consistent.settled_interest]
        simp only [Epoll.opened, Kernel.opened_interest]
      exact iff_of_true (follows_of_same follows settles rfl rfl rfl) trivial
  | listen fd trigger =>
      cases stepped
      exact iff_of_true (follows.setEvents consistent fd _) trivial
  | cancle fd trigger =>
      cases stepped
      exact iff_of_true (follows.setEvents consistent fd _) trivial
  | request inLoopThread request =>
      rcases Option.ite_none_right_eq_some.mp stepped with ⟨isOpen, same⟩
      cases same
      cases inLoopThread with
      | true => exact follows.own_iff consistent isOpen
      | false => exact iff_of_true (follows.queued consistent isOpen) trivial
  | run =>
      rw [SharedLoop.step] at stepped
      split at stepped
      · cases stepped
      · next request tasks queue =>
          cases stepped
          have settles : ({ state with epoll := request.apply state.events state.epoll, tasks } :
              SharedLoop).settled = state.settled := by
            rw [settled, settled, queue, List.foldl_cons]
          exact iff_of_true (follows_of_same follows (fun fd => by rw [settles]) rfl rfl rfl)
            trivial

theorem Follows.initial : ({} : SharedLoop).Follows := by
  constructor
  · intro fd
    rfl
  · intro fd wanted
    cases wanted

/-- However the requests of other threads and of the loop's own thread are interleaved
with the tasks, the interest set comes to what was requested last for each descriptor,
exactly as long as no request of the own thread comes while the last one queued for its
descriptor wants the opposite. -/
theorem follows_iff_keepsOrder (events : List SharedLoopEvent) :
    system.Always Follows {} events ↔
      system.EachStep (fun current event _ => current.KeepsOrder event) {} events := by
  have kept : ∀ (current : SharedLoop) event next, current.Consistent →
      system.Step current event next → next.Consistent := by
    intro current event next consistent step
    exact consistent.step step
  have keeps_iff : ∀ (current : SharedLoop) event next, current.Consistent →
      current.Follows → system.Step current event next →
      (next.Follows ↔ current.KeepsOrder event) := by
    intro current event next consistent follows step
    exact follows.step_iff consistent step
  exact Transition.System.always_iff kept keeps_iff Consistent.initial Follows.initial events

end SharedLoop

end NetRpc
