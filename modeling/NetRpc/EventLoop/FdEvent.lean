import NetRpc.Common.NetByte
import Mathlib.Data.List.Basic

/-! # FdEvent and FdEventGroup

The process has one FdEvent for each descriptor number, and that number stands
for a pointer to it.
-/

namespace NetRpc

inductive TriggerEvent
  | inEvent
  | outEvent
deriving DecidableEq

/-- The `events` of an `epoll_event`. -/
structure EpollEvents where
  epollIn : Bool := false
  epollOut : Bool := false
deriving DecidableEq

structure FdEvent where
  fd : Int
  listenEvents : EpollEvents := {}
deriving DecidableEq

namespace FdEvent

def listen (event : FdEvent) : TriggerEvent → FdEvent
  | .inEvent => { event with listenEvents.epollIn := true }
  | .outEvent => { event with listenEvents.epollOut := true }

def cancle (event : FdEvent) : TriggerEvent → FdEvent
  | .inEvent => { event with listenEvents.epollIn := false }
  | .outEvent => { event with listenEvents.epollOut := false }

@[simp]
theorem listen_fd (event : FdEvent) (trigger : TriggerEvent) :
    (event.listen trigger).fd = event.fd := by
  cases trigger <;> rfl

@[simp]
theorem cancle_fd (event : FdEvent) (trigger : TriggerEvent) :
    (event.cancle trigger).fd = event.fd := by
  cases trigger <;> rfl

end FdEvent

/-- `m_fd_group`, with the events that the FdEvent of each number listens to. -/
structure FdEventGroup where
  events : List EpollEvents
deriving DecidableEq

namespace FdEventGroup

def new (size : Nat) : FdEventGroup where
  events := List.replicate size {}

/-- `int(fd * 1.5)`, `none` where it leaves the range of an `int`. -/
def newSize (fd : Int) : Option Int :=
  let size := (fd * 3).tdiv 2
  if -2 ^ 31 ≤ size ∧ size < 2 ^ 31 then some size else none

/-- The loop that pushes the events up to the new size. -/
def grow (group : FdEventGroup) (size : Int) : FdEventGroup where
  events := group.events ++ List.replicate (size.toNat - group.events.length) {}

/-- The group afterwards, `none` where `m_fd_group` is read outside of its bounds.
The comparison casts `fd` to `size_t`, so a negative one is never below the size. -/
def getFdEvent (group : FdEventGroup) (fd : Int) : Option FdEventGroup :=
  if 0 ≤ fd ∧ fd < group.events.length then some group
  else do
    let size ← newSize fd
    if 0 ≤ fd ∧ fd < (group.grow size).events.length then some (group.grow size) else none

/-- The FdEvent that a pointer leads to. -/
def event (group : FdEventGroup) (fd : Int) : FdEvent where
  fd
  listenEvents := group.events.getD fd.toNat {}

def store (group : FdEventGroup) (event : FdEvent) : FdEventGroup where
  events := group.events.set event.fd.toNat event.listenEvents

theorem grow_length (group : FdEventGroup) (size : Int) :
    (group.grow size).events.length = max group.events.length size.toNat := by
  rw [grow, List.length_append, List.length_replicate]
  omega

theorem getFdEvent_length {group next : FdEventGroup} {fd : Int}
    (found : group.getFdEvent fd = some next) :
    group.events.length ≤ next.events.length := by
  rw [getFdEvent] at found
  split at found
  · cases found
    exact Nat.le_refl _
  · simp only [Option.bind_eq_bind, Option.bind_eq_some_iff, Option.ite_none_right_eq_some,
      Option.some.injEq] at found
    rcases found with ⟨size, _, _, rfl⟩
    rw [grow_length]
    exact Nat.le_max_left ..

theorem newSize_of_nonneg {fd : Int} (nonneg : 0 ≤ fd) :
    newSize fd = if fd * 3 / 2 < 2 ^ 31 then some (fd * 3 / 2) else none := by
  have truncated : (fd * 3).tdiv 2 = fd * 3 / 2 :=
    Int.tdiv_eq_ediv_of_nonneg (by omega)
  have notBelow : -2 ^ 31 ≤ fd * 3 / 2 := by
    omega
  simp only [newSize, truncated, notBelow, true_and]

/-- The number of every descriptor has an event afterwards, unless half of it
again is beyond the range of an `int`. -/
theorem getFdEvent_isSome_iff {group : FdEventGroup} (sized : 2 ≤ group.events.length)
    (fd : Int) :
    (group.getFdEvent fd).isSome ↔
      0 ≤ fd ∧ (fd < group.events.length ∨ fd * 3 / 2 < 2 ^ 31) := by
  rw [getFdEvent]
  split
  case isTrue inside => exact iff_of_true rfl ⟨inside.1, .inl inside.2⟩
  case isFalse outside =>
    by_cases nonneg : 0 ≤ fd
    · have beyond : ¬fd < (group.events.length : Int) := fun inside => outside ⟨nonneg, inside⟩
      rw [newSize_of_nonneg nonneg]
      split
      case isTrue fits =>
        have inGrown : 0 ≤ fd ∧ fd < ((group.grow (fd * 3 / 2)).events.length : Int) := by
          rw [grow_length]
          omega
        rw [Option.bind_eq_bind, Option.bind_some, if_pos inGrown]
        exact iff_of_true rfl ⟨nonneg, .inr fits⟩
      case isFalse tooLarge =>
        exact iff_of_false (by simp) fun both => both.2.elim beyond tooLarge
    · have never : ∀ size : Int, (if 0 ≤ fd ∧ fd < ((group.grow size).events.length : Int)
          then some (group.grow size) else none) = none :=
        fun size => if_neg fun both => nonneg both.1
      simp only [never, Option.bind_eq_bind, Option.bind_fun_none]
      exact iff_of_false (by simp) fun both => nonneg both.1

end FdEventGroup

end NetRpc
