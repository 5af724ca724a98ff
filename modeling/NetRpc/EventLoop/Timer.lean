import NetRpc.Foundation.SortedMap
import NetRpc.Foundation.Transition
import Mathlib.Data.Int.Order.Basic
import Mathlib.Logic.Function.Basic

/-! # The timer

`Timer` keeps the pending events in a multimap keyed by arrival time and wakes
the event loop through a timerfd. The event objects are shared with the callers,
so a change of an event is seen through every entry that refers to it.
-/

namespace NetRpc.EventLoop

open SortedMap

/-- The clock that `getNowMs` and the timerfd read. While an operation runs, the
time that passes before its readings and its armings is given by two lists. -/
structure Clock where
  now : Int
  delays : List Nat
  lags : List Nat
deriving DecidableEq

namespace Clock

def getNowMs (clock : Clock) : Clock :=
  { clock with now := clock.now + clock.delays.headD 0, delays := clock.delays.tail }

def enterSettime (clock : Clock) : Clock :=
  { clock with now := clock.now + clock.lags.headD 0, lags := clock.lags.tail }

end Clock

structure Timespec where
  tvSec : Int
  tvNsec : Int
deriving DecidableEq

/-- A one-shot timerfd. The deadline stays until an expiration is read. -/
structure Timerfd where
  deadline : Option Int
  armedAt : Int
deriving DecidableEq

namespace Timerfd

/-- `read` on the descriptor, where `none` is `EAGAIN`. -/
def read (timerfd : Timerfd) (now : Int) : Option Timerfd :=
  match timerfd.deadline with
  | some deadline =>
      if deadline ≤ now then some { timerfd with deadline := none } else none
  | none => none

/-- `timerfd_settime` with a relative value. A value of zero disarms, and one
that is no valid time is refused. -/
def settime (timerfd : Timerfd) (now : Int) (value : Timespec) : Timerfd :=
  if value.tvSec < 0 ∨ value.tvNsec < 0 ∨ 1000000000 ≤ value.tvNsec then timerfd
  else if value.tvSec = 0 ∧ value.tvNsec = 0 then { timerfd with deadline := none }
  else
    { deadline := some (now + value.tvSec * 1000 + value.tvNsec / 1000000)
      armedAt := now }

end Timerfd

/-- The state of an event object. Its task is run by name; an empty task is one
that does nothing. -/
structure TimerEvent where
  arriveTime : Int
  interval : Int
  isRepeated : Bool
  isCancled : Bool
deriving DecidableEq

structure Timer (Event : Type u) where
  clock : Clock
  timerfd : Timerfd
  events : Event → TimerEvent
  pendingEvents : List (Int × Event)

namespace Timer

variable {Event : Type u}

def getNowMs (timer : Timer Event) : Timer Event :=
  { timer with clock := timer.clock.getNowMs }

theorem getNowMs_le (timer : Timer Event) :
    timer.clock.now ≤ timer.getNowMs.clock.now :=
  Int.le_add_of_nonneg_right (Int.natCast_nonneg _)

def setTimerfd (timer : Timer Event) (interval : Int) : Timer Event :=
  let clock := timer.clock.enterSettime
  let value := { tvSec := interval / 1000, tvNsec := interval % 1000 * 1000000 }
  { timer with clock := clock, timerfd := timer.timerfd.settime clock.now value }

theorem setTimerfd_le (timer : Timer Event) (interval : Int) :
    timer.clock.now ≤ (timer.setTimerfd interval).clock.now :=
  Int.le_add_of_nonneg_right (Int.natCast_nonneg _)

/-- `Timer::resetArriveTime` -/
def resetArriveTime (timer : Timer Event) : Timer Event :=
  match timer.pendingEvents with
  | [] => timer
  | first :: _ =>
      let arriveTime := (timer.events first.2).arriveTime
      let timer := timer.getNowMs
      let now := timer.clock.now
      timer.setTimerfd (if arriveTime > now then arriveTime - now else 100)

@[simp] theorem resetArriveTime_events (timer : Timer Event) :
    timer.resetArriveTime.events = timer.events := by
  rw [resetArriveTime]
  split <;> rfl

@[simp] theorem resetArriveTime_pendingEvents (timer : Timer Event) :
    timer.resetArriveTime.pendingEvents = timer.pendingEvents := by
  rw [resetArriveTime]
  split <;> rfl

theorem resetArriveTime_le (timer : Timer Event) :
    timer.clock.now ≤ timer.resetArriveTime.clock.now := by
  rw [resetArriveTime]
  split
  · exact Int.le_refl _
  · exact Int.le_trans timer.getNowMs_le (setTimerfd_le _ _)

/-- Whether `event` arrives before everything that is pending. -/
def isResetTimerfd (timer : Timer Event) (event : Event) : Bool :=
  match timer.pendingEvents with
  | [] => true
  | first :: _ => (timer.events first.2).arriveTime > (timer.events event).arriveTime

def emplace (timer : Timer Event) (event : Event) : Timer Event :=
  { timer with
    pendingEvents :=
      SortedMap.emplace (timer.events event).arriveTime event timer.pendingEvents }

def addTimerEvent (timer : Timer Event) (event : Event) : Timer Event :=
  if timer.isResetTimerfd event then (timer.emplace event).resetArriveTime
  else timer.emplace event

@[simp] theorem addTimerEvent_events (timer : Timer Event) (event : Event) :
    (timer.addTimerEvent event).events = timer.events := by
  rw [addTimerEvent]
  split
  · rw [resetArriveTime_events, emplace]
  · rfl

@[simp] theorem addTimerEvent_pendingEvents (timer : Timer Event) (event : Event) :
    (timer.addTimerEvent event).pendingEvents =
      SortedMap.emplace (timer.events event).arriveTime event timer.pendingEvents := by
  rw [addTimerEvent]
  split
  · rw [resetArriveTime_pendingEvents, emplace]
  · rfl

theorem addTimerEvent_le (timer : Timer Event) (event : Event) :
    timer.clock.now ≤ (timer.addTimerEvent event).clock.now := by
  rw [addTimerEvent]
  split
  · exact resetArriveTime_le (timer.emplace event)
  · exact Int.le_refl _

/-- The loop of `onTimer` over the descriptor. Its second reading always fails
with `EAGAIN`, because the first has taken the only expiration. -/
def drain (timer : Timer Event) : Timer Event :=
  let timer := timer.getNowMs
  { timer with
    timerfd := (timer.timerfd.read timer.clock.now).getD timer.timerfd }

/-- When the batch of an `onTimer` is cut. -/
def drained (timer : Timer Event) : Timer Event :=
  timer.drain.getNowMs

@[simp] theorem drained_events (timer : Timer Event) :
    timer.drained.events = timer.events := rfl

@[simp] theorem drained_pendingEvents (timer : Timer Event) :
    timer.drained.pendingEvents = timer.pendingEvents := rfl

theorem drained_le (timer : Timer Event) : timer.clock.now ≤ timer.drained.clock.now :=
  Int.le_trans timer.getNowMs_le (getNowMs_le timer.drain)

/-- The tasks that `onTimer` collects, with the arrival times of their events. -/
def tasks (timer : Timer Event) : List (Int × Event) :=
  let due := timer.pendingEvents.takeWhile fun entry => entry.1 ≤ timer.clock.now
  (due.filter fun entry => !(timer.events entry.2).isCancled).map fun entry =>
    ((timer.events entry.2).arriveTime, entry.2)

def eraseDue (timer : Timer Event) : Timer Event :=
  { timer with pendingEvents := upperBound timer.clock.now timer.pendingEvents }

@[simp] theorem eraseDue_events (timer : Timer Event) :
    timer.eraseDue.events = timer.events := rfl

variable [DecidableEq Event]

def setCancled (timer : Timer Event) (event : Event) : Timer Event :=
  { timer with
    events := Function.update timer.events event
      { timer.events event with isCancled := true } }

def deleteTimerEvent (timer : Timer Event) (event : Event) : Timer Event :=
  let timer := timer.setCancled event
  { timer with
    pendingEvents :=
      eraseInRange (timer.events event).arriveTime event timer.pendingEvents }

/-- `TimerEvent::resetArriveTime` of a shared event. -/
def resetEvent (timer : Timer Event) (event : Event) : Timer Event :=
  let timer := timer.getNowMs
  { timer with
    events := Function.update timer.events event
      { timer.events event with
        arriveTime := timer.clock.now + (timer.events event).interval } }

/-- One pass of the loop of `onTimer` over the events that are due. -/
def addRepeated (timer : Timer Event) (event : Event) : Timer Event :=
  if (timer.events event).isRepeated then (timer.resetEvent event).addTimerEvent event
  else timer

theorem addRepeated_le (timer : Timer Event) (event : Event) :
    timer.clock.now ≤ (timer.addRepeated event).clock.now := by
  rw [addRepeated]
  split
  · exact Int.le_trans timer.getNowMs_le (addTimerEvent_le (timer.resetEvent event) event)
  · exact Int.le_refl _

/-- The timer after `onTimer`. Its tasks, which are run last, do not touch it. -/
def onTimer (timer : Timer Event) : Timer Event :=
  let timer := timer.drained
  let tmps := timer.tasks.map Prod.snd
  (tmps.foldl addRepeated timer.eraseDue).resetArriveTime

end Timer

/-! ## What holds of the entries -/

variable {Event : Type u}

/-- The entries are in order, each is keyed by the arrival time of its event, and
no event has two. -/
structure Timer.Consistent (timer : Timer Event) : Prop where
  sorted : Sorted timer.pendingEvents
  keyed : ∀ entry ∈ timer.pendingEvents, entry.1 = (timer.events entry.2).arriveTime
  distinct : (timer.pendingEvents.map Prod.snd).Nodup

namespace Timer.Consistent

variable {timer : Timer Event}

/-- The entries of some of the events. -/
theorem restrict {other : Timer Event} (consistent : timer.Consistent)
    (fewer : other.pendingEvents.Sublist timer.pendingEvents)
    (arriveTime : ∀ event, (other.events event).arriveTime = (timer.events event).arriveTime) :
    other.Consistent where
  sorted := consistent.sorted.sublist fewer
  keyed entry member := by
    rw [arriveTime]
    exact consistent.keyed entry (fewer.subset member)
  distinct := consistent.distinct.sublist (fewer.map _)

theorem emplace (consistent : timer.Consistent) {event : Event}
    (absent : event ∉ timer.pendingEvents.map Prod.snd) :
    (timer.emplace event).Consistent where
  sorted := consistent.sorted.emplace
  keyed entry member := by
    rcases mem_emplace.mp member with rfl | member
    · rfl
    · exact consistent.keyed entry member
  distinct := by
    have permuted := (emplace_perm (timer.events event).arriveTime event
      timer.pendingEvents).map Prod.snd
    exact permuted.nodup_iff.mpr (List.nodup_cons.mpr ⟨absent, consistent.distinct⟩)

theorem resetArriveTime (consistent : timer.Consistent) :
    timer.resetArriveTime.Consistent := by
  apply consistent.restrict
  · rw [resetArriveTime_pendingEvents]
  · intro event
    rw [resetArriveTime_events]

theorem addTimerEvent (consistent : timer.Consistent) {event : Event}
    (absent : event ∉ timer.pendingEvents.map Prod.snd) :
    (timer.addTimerEvent event).Consistent := by
  rw [Timer.addTimerEvent]
  split
  · exact (consistent.emplace absent).resetArriveTime
  · exact consistent.emplace absent

theorem eraseDue (consistent : timer.Consistent) : timer.eraseDue.Consistent :=
  consistent.restrict (List.dropWhile_sublist _) fun _ => rfl

variable [DecidableEq Event]

theorem deleteTimerEvent_pendingEvents (consistent : timer.Consistent) (event : Event) :
    (timer.deleteTimerEvent event).pendingEvents =
      timer.pendingEvents.filter fun entry => entry.2 ≠ event := by
  apply consistent.sorted.eraseInRange_eq consistent.distinct
  intro entry member same
  rw [consistent.keyed entry member, same]
  simp [setCancled]

theorem deleteTimerEvent (consistent : timer.Consistent) (event : Event) :
    (timer.deleteTimerEvent event).Consistent := by
  apply consistent.restrict
  · rw [consistent.deleteTimerEvent_pendingEvents]
    exact List.filter_sublist
  · intro other
    by_cases same : other = event
    · simp [Timer.deleteTimerEvent, setCancled, same]
    · simp [Timer.deleteTimerEvent, setCancled, same]

end Timer.Consistent

namespace Timer

theorem tasks_eq {timer : Timer Event} (consistent : timer.Consistent) :
    timer.tasks = timer.pendingEvents.filter fun entry =>
      entry.1 ≤ timer.clock.now && !(timer.events entry.2).isCancled := by
  have keyed : ∀ entry ∈ timer.pendingEvents,
      ((timer.events entry.2).arriveTime, entry.2) = entry := by
    intro entry member
    rw [← consistent.keyed entry member]
  rw [tasks, (consistent.sorted.split_le timer.clock.now).1, List.filter_filter]
  refine Eq.trans ((List.map_congr_left ?_).trans (List.map_id _)) ?_
  · intro entry member
    exact keyed entry (List.mem_of_mem_filter member)
  · apply List.filter_congr
    intro entry _
    exact Bool.and_comm _ _

theorem eraseDue_pendingEvents {timer : Timer Event} (consistent : timer.Consistent) :
    timer.eraseDue.pendingEvents =
      timer.pendingEvents.filter fun entry => timer.clock.now < entry.1 :=
  (consistent.sorted.split_le timer.clock.now).2

/-- The entries that the repeated events of a batch have afterwards. -/
def readded (timer : Timer Event) (batch : List Event) : List (Int × Event) :=
  (batch.filter fun event => (timer.events event).isRepeated).map fun event =>
    ((timer.events event).arriveTime, event)

theorem readded_append {timer : Timer Event} (left right : List Event) :
    timer.readded (left ++ right) = timer.readded left ++ timer.readded right := by
  rw [readded, List.filter_append, List.map_append, readded, readded]

theorem readded_congr {timer other : Timer Event} {batch : List Event}
    (same : ∀ event ∈ batch, timer.events event = other.events event) :
    timer.readded batch = other.readded batch := by
  have filtered : (batch.filter fun event => (timer.events event).isRepeated) =
      batch.filter fun event => (other.events event).isRepeated := by
    apply List.filter_congr
    intro event member
    rw [same event member]
  rw [readded, readded, filtered]
  apply List.map_congr_left
  intro event member
  rw [same event (List.mem_of_mem_filter member)]

/-- What running `addRepeated` over a batch does. -/
structure Reloaded (timer : Timer Event) (batch : List Event) (next : Timer Event) :
    Prop where
  consistent : next.Consistent
  later : timer.clock.now ≤ next.clock.now
  others : ∀ event, event ∉ batch → next.events event = timer.events event
  members : ∀ event ∈ batch, ∃ arriveTime,
    next.events event = { timer.events event with arriveTime := arriveTime } ∧
      ((timer.events event).isRepeated = true →
        timer.clock.now + (timer.events event).interval ≤ arriveTime)
  sorts : ∀ queue, StableSort queue timer.pendingEvents →
    StableSort (queue ++ next.readded batch) next.pendingEvents

variable [DecidableEq Event]

theorem resetEvent_consistent {timer : Timer Event} (consistent : timer.Consistent)
    {event : Event} (absent : event ∉ timer.pendingEvents.map Prod.snd) :
    (timer.resetEvent event).Consistent where
  sorted := consistent.sorted
  keyed entry member := by
    have other : entry.2 ≠ event := by
      rintro rfl
      exact absent (List.mem_map_of_mem member)
    simp only [resetEvent, Function.update_of_ne other]
    exact consistent.keyed entry member
  distinct := consistent.distinct

theorem addRepeated_consistent {timer : Timer Event} (consistent : timer.Consistent)
    {event : Event} (absent : event ∉ timer.pendingEvents.map Prod.snd) :
    (timer.addRepeated event).Consistent := by
  rw [addRepeated]
  split
  · exact (resetEvent_consistent consistent absent).addTimerEvent absent
  · exact consistent

theorem addRepeated_events_of_ne {timer : Timer Event} {event other : Event}
    (ne : other ≠ event) : (timer.addRepeated event).events other = timer.events other := by
  rw [addRepeated]
  split
  · rw [addTimerEvent_events]
    exact Function.update_of_ne ne _ _
  · rfl

theorem addRepeated_events_self (timer : Timer Event) (event : Event) :
    ∃ arriveTime, (timer.addRepeated event).events event =
        { timer.events event with arriveTime := arriveTime } ∧
      ((timer.events event).isRepeated = true →
        timer.clock.now + (timer.events event).interval ≤ arriveTime) := by
  rw [addRepeated]
  split
  · refine ⟨_, by rw [addTimerEvent_events]; exact Function.update_self _ _ _, fun _ => ?_⟩
    exact Int.add_le_add_right timer.getNowMs_le _
  · exact ⟨_, rfl, fun repeated => absurd repeated ‹_›⟩

theorem addRepeated_sorts {timer : Timer Event} {queue : List (Int × Event)}
    (event : Event) (stable : StableSort queue timer.pendingEvents) :
    StableSort (queue ++ (timer.addRepeated event).readded [event])
      (timer.addRepeated event).pendingEvents := by
  rcases addRepeated_events_self timer event with ⟨arriveTime, changed, _⟩
  cases repeated : (timer.events event).isRepeated with
  | true =>
      have entry : (timer.addRepeated event).readded [event] = [(arriveTime, event)] := by
        simp [readded, changed, repeated]
      have emplaced : (timer.addRepeated event).pendingEvents =
          SortedMap.emplace arriveTime event timer.pendingEvents := by
        rw [addRepeated, if_pos repeated] at changed ⊢
        rw [addTimerEvent_events] at changed
        rw [addTimerEvent_pendingEvents, changed]
        rfl
      rw [entry, emplaced]
      exact stable.emplace arriveTime event
  | false =>
      have skipped : timer.addRepeated event = timer := by
        simp [addRepeated, repeated]
      have none : timer.readded [event] = [] := by
        simp [readded, repeated]
      rw [skipped, none, List.append_nil]
      exact stable

theorem mem_addRepeated {timer : Timer Event} {event other : Event} (ne : other ≠ event)
    (absent : other ∉ timer.pendingEvents.map Prod.snd) :
    other ∉ (timer.addRepeated event).pendingEvents.map Prod.snd := by
  rw [addRepeated]
  split
  · intro member
    rcases List.mem_map.mp member with ⟨entry, inside, rfl⟩
    rw [addTimerEvent_pendingEvents, mem_emplace] at inside
    rcases inside with rfl | inside
    · exact ne rfl
    · exact absent (List.mem_map_of_mem inside)
  · exact absent

theorem Reloaded.of_foldl {timer : Timer Event} {batch : List Event}
    (consistent : timer.Consistent) (distinct : batch.Nodup)
    (absent : ∀ event ∈ batch, event ∉ timer.pendingEvents.map Prod.snd) :
    Reloaded timer batch (batch.foldl addRepeated timer) := by
  induction batch generalizing timer with
  | nil =>
      refine ⟨consistent, Int.le_refl _, fun _ _ => rfl, fun _ member => ?_, fun _ stable => ?_⟩
      · cases member
      · rw [readded, List.filter_nil, List.map_nil, List.append_nil]
        exact stable
  | cons event rest induction =>
      rw [List.nodup_cons] at distinct
      have fresh : ∀ other ∈ rest, other ≠ event := by
        rintro other member rfl
        exact distinct.1 member
      have here := absent event List.mem_cons_self
      have tail := @induction (timer.addRepeated event)
        (addRepeated_consistent consistent here) distinct.2
        (fun other member => mem_addRepeated (fresh other member)
          (absent other (List.mem_cons_of_mem _ member)))
      refine ⟨tail.consistent, Int.le_trans (addRepeated_le timer event) tail.later,
        fun other outside => ?_, fun other member => ?_, fun queue stable => ?_⟩
      · rw [List.mem_cons, not_or] at outside
        rw [List.foldl_cons, tail.others other outside.2, addRepeated_events_of_ne outside.1]
      · rcases List.mem_cons.mp member with rfl | member
        · rw [List.foldl_cons, tail.others other distinct.1]
          exact addRepeated_events_self timer other
        · rcases tail.members other member with ⟨arriveTime, changed, later⟩
          rw [addRepeated_events_of_ne (fresh other member)] at changed later
          refine ⟨arriveTime, changed, fun repeated => ?_⟩
          exact Int.le_trans (Int.add_le_add_right (addRepeated_le timer event) _)
            (later repeated)
      · have headSame : (timer.addRepeated event).readded [event] =
            (rest.foldl addRepeated (timer.addRepeated event)).readded [event] := by
          apply readded_congr
          intro other member
          rw [List.mem_singleton.mp member, tail.others event distinct.1]
        have sorted := tail.sorts _ (addRepeated_sorts event stable)
        rw [headSame, List.append_assoc, ← readded_append] at sorted
        exact sorted

/-- The batch of an `onTimer` is no longer pending when it is put back. -/
theorem foldl_reloaded {timer : Timer Event} (consistent : timer.Consistent) :
    Reloaded timer.drained.eraseDue (timer.drained.tasks.map Prod.snd)
      ((timer.drained.tasks.map Prod.snd).foldl addRepeated timer.drained.eraseDue) := by
  have cut : timer.drained.Consistent := consistent.restrict (List.Sublist.refl _) fun _ => rfl
  have sublist : timer.drained.tasks.Sublist timer.pendingEvents := by
    rw [tasks_eq cut]
    exact List.filter_sublist
  apply Reloaded.of_foldl cut.eraseDue (consistent.distinct.sublist (sublist.map _))
  rw [tasks_eq cut, eraseDue_pendingEvents cut]
  intro event member later
  rcases List.mem_map.mp member with ⟨due, dueMember, rfl⟩
  rcases List.mem_map.mp later with ⟨entry, entryMember, same⟩
  simp only [List.mem_filter, Bool.and_eq_true, decide_eq_true_eq] at dueMember entryMember
  have dueKeyed := cut.keyed due dueMember.1
  have entryKeyed := cut.keyed entry entryMember.1
  rw [same, ← dueKeyed] at entryKeyed
  omega

/-- What one `onTimer` does to the timer, apart from the tasks it runs. -/
theorem onTimer_reloaded {timer : Timer Event} (consistent : timer.Consistent) :
    Reloaded timer.drained.eraseDue (timer.drained.tasks.map Prod.snd) timer.onTimer := by
  have reloaded := foldl_reloaded consistent
  rw [onTimer]
  refine ⟨reloaded.consistent.resetArriveTime,
    Int.le_trans reloaded.later (resetArriveTime_le _), ?_, ?_, ?_⟩
  · rw [resetArriveTime_events]
    exact reloaded.others
  · rw [resetArriveTime_events]
    exact reloaded.members
  · intro queue stable
    rw [resetArriveTime_pendingEvents, readded, resetArriveTime_events]
    exact reloaded.sorts queue stable

end Timer

/-! ## Runs -/

inductive TimerLabel (Event : Type u)
  | pass
  | addTimerEvent (arriveTime : Int) (event : Event)
  | deleteTimerEvent (event : Event)
  /-- The time at which the batch was cut, the tasks that were run, and the
  entries that the repeated events among them got. -/
  | onTimer (now : Int) (tasks readded : List (Int × Event))
deriving DecidableEq

namespace Timer

def pass (timer : Timer Event) (time : Nat) : Timer Event :=
  { timer with clock := { timer.clock with now := timer.clock.now + time } }

/-- The timer when an operation starts that takes the given times. -/
def during (timer : Timer Event) (delays lags : List Nat) : Timer Event :=
  { timer with clock := { timer.clock with delays := delays, lags := lags } }

@[simp] theorem during_events (timer : Timer Event) (delays lags : List Nat) :
    (timer.during delays lags).events = timer.events := rfl

theorem Consistent.during {timer : Timer Event} (consistent : timer.Consistent)
    (delays lags : List Nat) : (timer.during delays lags).Consistent :=
  consistent.restrict (.refl _) fun _ => rfl

end Timer

variable [DecidableEq Event]

/-- At most `maxLag` passes between reading the clock and arming the timerfd. An
event that is pending is not added again. -/
inductive TimerStep (maxLag : Nat) :
    Timer Event → TimerLabel Event → Timer Event → Prop
  | pass {timer : Timer Event} (time : Nat) :
      TimerStep maxLag timer .pass (timer.pass time)
  | addTimerEvent {timer : Timer Event} {event : Event} (delays lags : List Nat) :
      (∀ lag ∈ lags, lag ≤ maxLag) →
      event ∉ timer.pendingEvents.map Prod.snd →
      TimerStep maxLag timer
        (.addTimerEvent (timer.events event).arriveTime event)
        ((timer.during delays lags).addTimerEvent event)
  | deleteTimerEvent {timer : Timer Event} (event : Event) :
      TimerStep maxLag timer (.deleteTimerEvent event) (timer.deleteTimerEvent event)
  | onTimer {timer : Timer Event} (delays lags : List Nat) :
      (∀ lag ∈ lags, lag ≤ maxLag) →
      TimerStep maxLag timer
        (.onTimer (timer.during delays lags).drained.clock.now
          (timer.during delays lags).drained.tasks
          ((timer.during delays lags).onTimer.readded
            ((timer.during delays lags).drained.tasks.map Prod.snd)))
        (timer.during delays lags).onTimer

/-- A timer of which nothing is known but that it has no events yet. -/
def timerSystem (Event : Type u) [DecidableEq Event] (maxLag : Nat) :
    Transition.System (Timer Event) (TimerLabel Event) where
  Initial timer := timer.pendingEvents = []
  Step := TimerStep maxLag

omit [DecidableEq Event] in
theorem Timer.Consistent.of_empty {timer : Timer Event} (empty : timer.pendingEvents = []) :
    timer.Consistent := by
  refine ⟨?_, ?_, ?_⟩
  · rw [empty]
    exact List.Pairwise.nil
  · rw [empty]
    intro entry member
    cases member
  · rw [empty]
    exact List.nodup_nil

theorem TimerStep.consistent {maxLag : Nat} {timer next : Timer Event}
    {label : TimerLabel Event} (step : TimerStep maxLag timer label next)
    (consistent : timer.Consistent) : next.Consistent := by
  cases step with
  | pass => exact consistent.restrict (.refl _) fun _ => rfl
  | addTimerEvent delays lags _ absent =>
      exact (consistent.during delays lags).addTimerEvent absent
  | deleteTimerEvent event => exact consistent.deleteTimerEvent event
  | onTimer delays lags =>
      exact (Timer.onTimer_reloaded (consistent.during delays lags)).consistent

/-- The interval and the kind of an event never change, and only a deletion
cancels it. -/
theorem TimerStep.event_eq {maxLag : Nat} {timer next : Timer Event}
    {label : TimerLabel Event} (step : TimerStep maxLag timer label next)
    (consistent : timer.Consistent) (event : Event) :
    (next.events event).interval = (timer.events event).interval ∧
      (next.events event).isRepeated = (timer.events event).isRepeated ∧
      (next.events event).isCancled =
        ((timer.events event).isCancled || decide (label = .deleteTimerEvent event)) := by
  cases step with
  | pass => simp [Timer.pass]
  | addTimerEvent => simp
  | deleteTimerEvent other =>
      by_cases same : event = other
      · simp [Timer.deleteTimerEvent, Timer.setCancled, same]
      · simp [Timer.deleteTimerEvent, Timer.setCancled, same, Ne.symm same]
  | onTimer delays lags =>
      have reloaded := Timer.onTimer_reloaded (consistent.during delays lags)
      by_cases member : event ∈ (timer.during delays lags).drained.tasks.map Prod.snd
      · rcases reloaded.members event member with ⟨_, changed, _⟩
        rw [changed]
        simp
      · rw [reloaded.others event member]
        simp

end NetRpc.EventLoop
