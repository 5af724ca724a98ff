import Mathlib.Data.Finset.Erase
import Mathlib.Data.Finset.Insert
import Mathlib.Logic.Function.Basic
import NetRpc.EventLoop.FdEvent

/-! # The epoll bookkeeping of an event loop

`m_listen_fds` is a copy of the interest set of the kernel. It decides between
adding a descriptor and modifying it, and it hears nothing of a `close`.
-/

namespace NetRpc

/-- What the kernel knows: the open descriptors of the process, and the interest
set of the epoll instance with the events of each member. -/
structure Kernel where
  descriptors : Finset Int
  interest : Int → Option EpollEvents

inductive EpollOp
  | add
  | mod
  | del
deriving DecidableEq

namespace EpollOp

/-- `EPOLL_CTL_ADD` wants an absent descriptor, the others a present one. -/
def wantsPresent : EpollOp → Bool
  | .add => false
  | .mod | .del => true

/-- What the operation leaves in the interest set. -/
def entry (event : FdEvent) : EpollOp → Option EpollEvents
  | .add | .mod => some event.listenEvents
  | .del => none

end EpollOp

namespace Kernel

/-- `epoll_ctl`, `none` where it returns -1. -/
def epollCtl (kernel : Kernel) (op : EpollOp) (event : FdEvent) : Option Kernel :=
  if event.fd ∈ kernel.descriptors ∧ (kernel.interest event.fd).isSome = op.wantsPresent then
    some { kernel with
      interest := Function.update kernel.interest event.fd (op.entry event) }
  else
    none

/-- A closed descriptor leaves the interest set. -/
def close (kernel : Kernel) (fd : Int) : Kernel where
  descriptors := kernel.descriptors.erase fd
  interest := Function.update kernel.interest fd none

/-- `socket` or `accept` has returned `fd`, which is negative where it failed. -/
def opened (kernel : Kernel) (fd : Int) : Kernel :=
  if 0 ≤ fd then { kernel with descriptors := insert fd kernel.descriptors } else kernel

/-- Only open descriptors are in the interest set. -/
def OpenOnly (kernel : Kernel) : Prop :=
  ∀ fd, (kernel.interest fd).isSome → fd ∈ kernel.descriptors

@[simp]
theorem epollCtl_descriptors (kernel : Kernel) (op : EpollOp) (event : FdEvent) :
    ((kernel.epollCtl op event).getD kernel).descriptors = kernel.descriptors := by
  rw [epollCtl]
  split <;> rfl

theorem epollCtl_interest_self {kernel : Kernel} {op : EpollOp} {event : FdEvent}
    (isOpen : event.fd ∈ kernel.descriptors)
    (wanted : (kernel.interest event.fd).isSome = op.wantsPresent) :
    ((kernel.epollCtl op event).getD kernel).interest event.fd = op.entry event := by
  rw [epollCtl, if_pos ⟨isOpen, wanted⟩]
  exact Function.update_self ..

theorem epollCtl_interest_of_ne {fd : Int} {event : FdEvent} (other : fd ≠ event.fd)
    (kernel : Kernel) (op : EpollOp) :
    ((kernel.epollCtl op event).getD kernel).interest fd = kernel.interest fd := by
  rw [epollCtl]
  split
  · exact Function.update_of_ne other ..
  · rfl

theorem OpenOnly.epollCtl {kernel : Kernel} (openOnly : kernel.OpenOnly) (op : EpollOp)
    (event : FdEvent) : ((kernel.epollCtl op event).getD kernel).OpenOnly := by
  intro fd present
  rw [epollCtl_descriptors]
  by_cases same : fd = event.fd
  · by_contra notOpen
    rw [Kernel.epollCtl, if_neg fun both => notOpen (same ▸ both.1)] at present
    exact notOpen (openOnly fd present)
  · rw [epollCtl_interest_of_ne same] at present
    exact openOnly fd present

@[simp]
theorem close_interest_self (kernel : Kernel) (fd : Int) :
    (kernel.close fd).interest fd = none :=
  Function.update_self ..

theorem close_interest_of_ne {fd other : Int} (different : other ≠ fd) (kernel : Kernel) :
    (kernel.close fd).interest other = kernel.interest other :=
  Function.update_of_ne different ..

theorem OpenOnly.close {kernel : Kernel} (openOnly : kernel.OpenOnly) (fd : Int) :
    (kernel.close fd).OpenOnly := by
  intro other present
  by_cases same : other = fd
  · simp [same] at present
  · rw [close_interest_of_ne same] at present
    exact Finset.mem_erase.mpr ⟨same, openOnly other present⟩

theorem OpenOnly.opened {kernel : Kernel} (openOnly : kernel.OpenOnly) (fd : Int) :
    (kernel.opened fd).OpenOnly := by
  rw [Kernel.opened]
  split
  · exact fun other present => Finset.mem_insert_of_mem (openOnly other present)
  · exact openOnly

@[simp]
theorem opened_interest (kernel : Kernel) (fd : Int) :
    (kernel.opened fd).interest = kernel.interest := by
  rw [opened]
  split <;> rfl

end Kernel

structure Epoll where
  listenFds : Finset Int
  kernel : Kernel
  /-- The descriptors for which the `epoll_ctl` of an `addEpollEvent` has failed. -/
  rejected : List Int

namespace Epoll

/-- `ADD_TO_EPOLL`. The descriptor is recorded whatever `epoll_ctl` returns. -/
def addEpollEvent (epoll : Epoll) (event : FdEvent) : Epoll :=
  let op := if event.fd ∈ epoll.listenFds then .mod else .add
  let answer := epoll.kernel.epollCtl op event
  { listenFds := insert event.fd epoll.listenFds
    kernel := answer.getD epoll.kernel
    rejected := if answer.isSome then epoll.rejected else epoll.rejected ++ [event.fd] }

/-- `DELETE_TO_EPOLL`. -/
def deleteEpollEvent (epoll : Epoll) (event : FdEvent) : Epoll :=
  if event.fd ∈ epoll.listenFds then
    { epoll with
      listenFds := epoll.listenFds.erase event.fd
      kernel := (epoll.kernel.epollCtl .del event).getD epoll.kernel }
  else
    epoll

def close (epoll : Epoll) (fd : Int) : Epoll :=
  { epoll with kernel := epoll.kernel.close fd }

def opened (epoll : Epoll) (fd : Int) : Epoll :=
  { epoll with kernel := epoll.kernel.opened fd }

/-- `m_listen_fds` is the interest set of the kernel, and every operation that
`addEpollEvent` has chosen has succeeded. -/
structure InSync (epoll : Epoll) : Prop where
  mirrors : ∀ fd, fd ∈ epoll.listenFds ↔ (epoll.kernel.interest fd).isSome
  accepted : epoll.rejected = []

theorem addEpollEvent_openOnly {epoll : Epoll} (openOnly : epoll.kernel.OpenOnly)
    (event : FdEvent) : (epoll.addEpollEvent event).kernel.OpenOnly :=
  openOnly.epollCtl _ event

theorem deleteEpollEvent_openOnly {epoll : Epoll} (openOnly : epoll.kernel.OpenOnly)
    (event : FdEvent) : (epoll.deleteEpollEvent event).kernel.OpenOnly := by
  rw [deleteEpollEvent]
  split
  · exact openOnly.epollCtl _ event
  · exact openOnly

@[simp]
theorem addEpollEvent_descriptors (epoll : Epoll) (event : FdEvent) :
    (epoll.addEpollEvent event).kernel.descriptors = epoll.kernel.descriptors :=
  Kernel.epollCtl_descriptors ..

@[simp]
theorem deleteEpollEvent_descriptors (epoll : Epoll) (event : FdEvent) :
    (epoll.deleteEpollEvent event).kernel.descriptors = epoll.kernel.descriptors := by
  rw [deleteEpollEvent]
  split
  · exact Kernel.epollCtl_descriptors ..
  · rfl

/-- The interest set after a deletion, whether `epoll_ctl` succeeds or not. -/
theorem deleteEpollEvent_interest {epoll : Epoll} (openOnly : epoll.kernel.OpenOnly)
    {event : FdEvent} (listed : event.fd ∈ epoll.listenFds) :
    (epoll.deleteEpollEvent event).kernel.interest event.fd = none := by
  rw [deleteEpollEvent, if_pos listed]
  cases present : (epoll.kernel.interest event.fd).isSome with
  | true => exact Kernel.epollCtl_interest_self (openOnly event.fd present) present
  | false =>
      have impossible : ¬(epoll.kernel.interest event.fd).isSome = EpollOp.del.wantsPresent := by
        rw [present]
        exact Bool.false_ne_true
      rw [Kernel.epollCtl, if_neg fun both => impossible both.2]
      exact Option.isSome_eq_false_iff.mp present |> Option.isNone_iff_eq_none.mp

theorem deleteEpollEvent_interest_of_ne {fd : Int} {event : FdEvent} (other : fd ≠ event.fd)
    (epoll : Epoll) :
    (epoll.deleteEpollEvent event).kernel.interest fd = epoll.kernel.interest fd := by
  rw [deleteEpollEvent]
  split
  · exact Kernel.epollCtl_interest_of_ne other ..
  · rfl

theorem mem_deleteEpollEvent_listenFds (epoll : Epoll) (event : FdEvent) (fd : Int) :
    fd ∈ (epoll.deleteEpollEvent event).listenFds ↔ fd ≠ event.fd ∧ fd ∈ epoll.listenFds := by
  rw [deleteEpollEvent]
  split
  case isTrue => exact Finset.mem_erase
  case isFalse absent =>
    refine ⟨fun listed => ⟨?_, listed⟩, fun both => both.2⟩
    rintro rfl
    exact absent listed

@[simp]
theorem deleteEpollEvent_rejected (epoll : Epoll) (event : FdEvent) :
    (epoll.deleteEpollEvent event).rejected = epoll.rejected := by
  rw [deleteEpollEvent]
  split <;> rfl

/-- What is in sync stays so when the descriptor is open. Otherwise the failed
operation leaves it in `m_listen_fds` all the same. -/
theorem addEpollEvent_inSync_iff {epoll : Epoll} (openOnly : epoll.kernel.OpenOnly)
    (inSync : epoll.InSync) (event : FdEvent) :
    (epoll.addEpollEvent event).InSync ↔ event.fd ∈ epoll.kernel.descriptors := by
  have chosen : (epoll.kernel.interest event.fd).isSome =
      (if event.fd ∈ epoll.listenFds then EpollOp.mod else .add).wantsPresent := by
    split
    case isTrue listed => exact (inSync.mirrors _).mp listed
    case isFalse absent =>
      rw [inSync.mirrors, Bool.not_eq_true] at absent
      exact absent
  have kept : (if event.fd ∈ epoll.listenFds then EpollOp.mod else .add).entry event =
      some event.listenEvents := by
    split <;> rfl
  constructor
  · intro after
    have isSome := (after.mirrors event.fd).mp (Finset.mem_insert_self ..)
    have isOpen := addEpollEvent_openOnly openOnly event event.fd isSome
    rw [addEpollEvent_descriptors] at isOpen
    exact isOpen
  · intro isOpen
    refine ⟨fun fd => ?_, ?_⟩
    · rw [addEpollEvent]
      by_cases same : fd = event.fd
      · rw [same]
        rw [Kernel.epollCtl_interest_self isOpen chosen, kept]
        exact iff_of_true (Finset.mem_insert_self ..) rfl
      · rw [Kernel.epollCtl_interest_of_ne same, Finset.mem_insert, or_iff_right same]
        exact inSync.mirrors fd
    · rw [addEpollEvent, Kernel.epollCtl, if_pos ⟨isOpen, chosen⟩]
      exact inSync.accepted

/-- A deletion makes up for what has gone wrong with its own descriptor, as long as
that is listed. -/
theorem deleteEpollEvent_inSync_iff {epoll : Epoll} (openOnly : epoll.kernel.OpenOnly)
    (event : FdEvent) :
    (epoll.deleteEpollEvent event).InSync ↔
      epoll.rejected = [] ∧ ∀ fd, fd ≠ event.fd ∨ event.fd ∉ epoll.listenFds →
        (fd ∈ epoll.listenFds ↔ (epoll.kernel.interest fd).isSome) := by
  by_cases listed : event.fd ∈ epoll.listenFds
  · constructor
    · rintro ⟨mirrors, accepted⟩
      rw [deleteEpollEvent_rejected] at accepted
      refine ⟨accepted, fun fd elsewhere => ?_⟩
      have other : fd ≠ event.fd := elsewhere.resolve_right (not_not_intro listed)
      rw [← deleteEpollEvent_interest_of_ne other, ← mirrors, mem_deleteEpollEvent_listenFds,
        and_iff_right other]
    · rintro ⟨accepted, mirrors⟩
      refine ⟨fun fd => ?_, (deleteEpollEvent_rejected epoll event).trans accepted⟩
      rw [mem_deleteEpollEvent_listenFds]
      by_cases same : fd = event.fd
      · rw [same, deleteEpollEvent_interest openOnly listed]
        exact iff_of_false (fun both => both.1 rfl) Bool.false_ne_true
      · rw [deleteEpollEvent_interest_of_ne same, and_iff_right same]
        exact mirrors fd (.inl same)
  · rw [deleteEpollEvent, if_neg listed]
    constructor
    · exact fun inSync => ⟨inSync.accepted, fun fd _ => inSync.mirrors fd⟩
    · exact fun both => ⟨fun fd => both.2 fd (.inr listed), both.1⟩

theorem deleteEpollEvent_inSync {epoll : Epoll} (openOnly : epoll.kernel.OpenOnly)
    (inSync : epoll.InSync) (event : FdEvent) : (epoll.deleteEpollEvent event).InSync :=
  (deleteEpollEvent_inSync_iff openOnly event).mpr
    ⟨inSync.accepted, fun fd _ => inSync.mirrors fd⟩

theorem opened_inSync {epoll : Epoll} (inSync : epoll.InSync) (fd : Int) :
    (epoll.opened fd).InSync := by
  refine ⟨fun other => ?_, inSync.accepted⟩
  rw [opened, Kernel.opened_interest]
  exact inSync.mirrors other

/-- Closing is not recorded, and it takes its descriptor out of the interest set. -/
theorem close_inSync_iff {epoll : Epoll} (inSync : epoll.InSync) (fd : Int) :
    (epoll.close fd).InSync ↔ epoll.kernel.interest fd = none := by
  constructor
  · intro after
    have absent : fd ∉ epoll.listenFds := by
      intro listed
      have present := (after.mirrors fd).mp listed
      simp [close] at present
    rw [inSync.mirrors] at absent
    exact Option.not_isSome_iff_eq_none.mp absent
  · intro absent
    refine ⟨fun other => ?_, inSync.accepted⟩
    rw [close, Kernel.close, ← absent, Function.update_eq_self]
    exact inSync.mirrors other

/-- A deletion that follows makes up for the closing where it is for the same
descriptor, whatever number is opened in between. -/
theorem close_delete_inSync_iff {epoll : Epoll} (openOnly : epoll.kernel.OpenOnly)
    (inSync : epoll.InSync) (fd reopened : Int) (event : FdEvent) :
    (((epoll.close fd).opened reopened).deleteEpollEvent event).InSync ↔
      fd = event.fd ∨ epoll.kernel.interest fd = none := by
  have openOnlyAfter : ((epoll.close fd).opened reopened).kernel.OpenOnly :=
    (openOnly.close fd).opened reopened
  rw [deleteEpollEvent_inSync_iff openOnlyAfter]
  have interest : ((epoll.close fd).opened reopened).kernel.interest =
      (epoll.kernel.close fd).interest :=
    Kernel.opened_interest ..
  rw [interest]
  constructor
  · rintro ⟨_, mirrors⟩
    rw [or_iff_not_imp_left]
    intro other
    have absent : fd ∉ epoll.listenFds := by
      intro listed
      have present := (mirrors fd (.inl other)).mp listed
      simp at present
    rw [inSync.mirrors] at absent
    exact Option.not_isSome_iff_eq_none.mp absent
  · intro condition
    refine ⟨inSync.accepted, fun other elsewhere => ?_⟩
    change other ∈ epoll.listenFds ↔ _
    by_cases same : other = fd
    · rw [same, Kernel.close_interest_self]
      refine iff_of_false ?_ Bool.false_ne_true
      rcases condition with isEvent | absent
      · rw [isEvent]
        exact elsewhere.resolve_left fun different => different (same.trans isEvent)
      · rw [inSync.mirrors, absent]
        exact Bool.false_ne_true
    · rw [Kernel.close_interest_of_ne same]
      exact inSync.mirrors other

end Epoll

/-- What one operation of a loop or of its clients does to the bookkeeping. -/
inductive EpollEffect
  | none
  | add (event : FdEvent)
  | delete (event : FdEvent)
  | opened (fd : Int)
  | close (fd : Int)
  /-- A descriptor is closed, another one is opened, and the event is deleted. -/
  | reopen (fd reopened : Int) (event : FdEvent)

namespace EpollEffect

def apply (epoll : Epoll) : EpollEffect → Epoll
  | .none => epoll
  | .add event => epoll.addEpollEvent event
  | .delete event => epoll.deleteEpollEvent event
  | .opened fd => epoll.opened fd
  | .close fd => epoll.close fd
  | .reopen fd reopened event => ((epoll.close fd).opened reopened).deleteEpollEvent event

/-- A descriptor is open when it is added. When it is closed it is not in the
interest set, unless the deletion that follows is its own. -/
def Careful (kernel : Kernel) : EpollEffect → Prop
  | .add event => event.fd ∈ kernel.descriptors
  | .close fd => kernel.interest fd = .none
  | .reopen fd _ event => fd = event.fd ∨ kernel.interest fd = .none
  | _ => True

theorem apply_openOnly {epoll : Epoll} (openOnly : epoll.kernel.OpenOnly)
    (effect : EpollEffect) : (effect.apply epoll).kernel.OpenOnly := by
  cases effect with
  | none => exact openOnly
  | add event => exact Epoll.addEpollEvent_openOnly openOnly event
  | delete event => exact Epoll.deleteEpollEvent_openOnly openOnly event
  | opened fd => exact openOnly.opened fd
  | close fd => exact openOnly.close fd
  | reopen fd reopened event =>
      have reopenedOpenOnly : ((epoll.close fd).opened reopened).kernel.OpenOnly :=
        (openOnly.close fd).opened reopened
      exact Epoll.deleteEpollEvent_openOnly reopenedOpenOnly event

theorem apply_inSync_iff {epoll : Epoll} (openOnly : epoll.kernel.OpenOnly)
    (inSync : epoll.InSync) (effect : EpollEffect) :
    (effect.apply epoll).InSync ↔ effect.Careful epoll.kernel := by
  cases effect with
  | none => exact iff_of_true inSync trivial
  | add event => exact Epoll.addEpollEvent_inSync_iff openOnly inSync event
  | delete event => exact iff_of_true (Epoll.deleteEpollEvent_inSync openOnly inSync event) trivial
  | opened fd => exact iff_of_true (Epoll.opened_inSync inSync fd) trivial
  | close fd => exact Epoll.close_inSync_iff inSync fd
  | reopen fd reopened event =>
      exact Epoll.close_delete_inSync_iff openOnly inSync fd reopened event

end EpollEffect

end NetRpc
