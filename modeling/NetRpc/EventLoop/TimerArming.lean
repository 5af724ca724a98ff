import NetRpc.EventLoop.TimerDispatch

/-! # Arming the timerfd

The timerfd is armed for the first entry only, and only some operations arm it.
Every pending event is nevertheless covered by the deadline it has: adding arms
for a new first entry, deleting only makes the first entry later, and `onTimer`
arms last.
-/

namespace NetRpc.EventLoop

open SortedMap

variable {Event : Type u}

/-- The timerfd is armed, or expired and not read, and is due at `arriveTime` or
within 100 ms of its arming. The bound on the delay of an arming adds to the
former. -/
def Timerfd.Covers (timerfd : Timerfd) (maxLag : Nat) (arriveTime : Int) : Prop :=
  ∃ deadline, timerfd.deadline = some deadline ∧
    deadline ≤ max (arriveTime + maxLag) (timerfd.armedAt + 100)

theorem Timerfd.Covers.mono {timerfd : Timerfd} {maxLag : Nat} {earlier later : Int}
    (covers : timerfd.Covers maxLag earlier) (ordered : earlier ≤ later) :
    timerfd.Covers maxLag later := by
  rcases covers with ⟨deadline, armed, bound⟩
  refine ⟨deadline, armed, ?_⟩
  omega

/-- The seconds and nanoseconds of a positive interval give it back. -/
theorem Timerfd.settime_eq (timerfd : Timerfd) (now : Int) {interval : Int}
    (positive : 0 < interval) :
    timerfd.settime now
        { tvSec := interval / 1000, tvNsec := interval % 1000 * 1000000 } =
      { deadline := some (now + interval), armedAt := now } := by
  have valid : ¬(interval / 1000 < 0 ∨ interval % 1000 * 1000000 < 0 ∨
      1000000000 ≤ interval % 1000 * 1000000) := by
    omega
  have notZero : ¬(interval / 1000 = 0 ∧ interval % 1000 * 1000000 = 0) := by
    omega
  have reassembled : now + interval / 1000 * 1000 + interval % 1000 * 1000000 / 1000000 =
      now + interval := by
    omega
  rw [settime, if_neg valid, if_neg notZero, reassembled]

namespace Timer

/-- No arming in the rest of an operation is delayed by more than `maxLag`. -/
def Prompt (timer : Timer Event) (maxLag : Nat) : Prop :=
  ∀ lag ∈ timer.clock.lags, lag ≤ maxLag

/-- Every pending event is covered by the timerfd. -/
def Armed (timer : Timer Event) (maxLag : Nat) : Prop :=
  ∀ entry ∈ timer.pendingEvents, timer.timerfd.Covers maxLag entry.1

theorem resetArriveTime_prompt {timer : Timer Event} {maxLag : Nat}
    (prompt : timer.Prompt maxLag) : timer.resetArriveTime.Prompt maxLag := by
  rw [resetArriveTime]
  split
  · exact prompt
  · intro lag member
    exact prompt lag (List.mem_of_mem_tail member)

theorem addTimerEvent_prompt {timer : Timer Event} {maxLag : Nat}
    (prompt : timer.Prompt maxLag) (event : Event) :
    (timer.addTimerEvent event).Prompt maxLag := by
  rw [addTimerEvent]
  split
  · exact resetArriveTime_prompt prompt
  · exact prompt

/-- Arming for the first entry covers all of them. -/
theorem resetArriveTime_armed {timer : Timer Event} {maxLag : Nat}
    (consistent : timer.Consistent) (prompt : timer.Prompt maxLag) :
    timer.resetArriveTime.Armed maxLag := by
  intro entry member
  rw [resetArriveTime_pendingEvents] at member
  cases pending : timer.pendingEvents with
  | nil =>
      rw [pending] at member
      cases member
  | cons first rest =>
      have lag : timer.clock.lags.headD 0 ≤ maxLag := by
        cases lags : timer.clock.lags with
        | nil => exact Nat.zero_le _
        | cons head tail =>
            apply prompt
            rw [lags]
            exact List.mem_cons_self
      have keyed : first.1 = (timer.events first.2).arriveTime := by
        apply consistent.keyed
        rw [pending]
        exact List.mem_cons_self
      have ordered : first.1 ≤ entry.1 := by
        have sorted := consistent.sorted
        rw [pending] at sorted member
        exact sorted.head_le member
      simp only [resetArriveTime, pending, setTimerfd]
      rw [Timerfd.settime_eq]
      · refine ⟨_, rfl, ?_⟩
        simp only [Clock.enterSettime, getNowMs, Clock.getNowMs, ← keyed]
        split <;> omega
      · split <;> omega

/-- A new event that does not arm the timerfd comes after one that it covers. -/
theorem addTimerEvent_armed {timer : Timer Event} {maxLag : Nat}
    (consistent : timer.Consistent) (prompt : timer.Prompt maxLag)
    (armed : timer.Armed maxLag) {event : Event}
    (absent : event ∉ timer.pendingEvents.map Prod.snd) :
    (timer.addTimerEvent event).Armed maxLag := by
  rw [addTimerEvent]
  split
  case isTrue => exact resetArriveTime_armed (consistent.emplace absent) prompt
  case isFalse notFirst =>
    intro entry member
    rcases mem_emplace.mp member with rfl | member
    · cases pending : timer.pendingEvents with
      | nil => simp [isResetTimerfd, pending] at notFirst
      | cons first rest =>
          have inside : first ∈ timer.pendingEvents := by
            rw [pending]
            exact List.mem_cons_self
          have keyed := consistent.keyed first inside
          simp only [isResetTimerfd, pending, decide_eq_true_eq, ← keyed] at notFirst
          exact (armed first inside).mono (Int.not_lt.mp notFirst)
    · exact armed entry member

variable [DecidableEq Event]

theorem deleteTimerEvent_armed {timer : Timer Event} {maxLag : Nat}
    (consistent : timer.Consistent) (armed : timer.Armed maxLag) (event : Event) :
    (timer.deleteTimerEvent event).Armed maxLag := by
  intro entry member
  rw [consistent.deleteTimerEvent_pendingEvents] at member
  exact armed entry (List.mem_of_mem_filter member)

theorem foldl_addRepeated_prompt {timer : Timer Event} {maxLag : Nat}
    (prompt : timer.Prompt maxLag) (batch : List Event) :
    (batch.foldl addRepeated timer).Prompt maxLag := by
  induction batch generalizing timer with
  | nil => exact prompt
  | cons event rest induction =>
      apply induction
      rw [addRepeated]
      split
      · exact @addTimerEvent_prompt _ (timer.resetEvent event) maxLag prompt event
      · exact prompt

/-- Whatever the drain has disarmed, `onTimer` arms again while events are left. -/
theorem onTimer_armed {timer : Timer Event} {maxLag : Nat}
    (consistent : timer.Consistent) (prompt : timer.Prompt maxLag) :
    timer.onTimer.Armed maxLag := by
  have reloaded := (foldl_reloaded consistent).consistent
  have prompts := @foldl_addRepeated_prompt _ _ timer.drained.eraseDue maxLag prompt
    (timer.drained.tasks.map Prod.snd)
  exact resetArriveTime_armed reloaded prompts

end Timer

variable [DecidableEq Event]

theorem TimerStep.armed {maxLag : Nat} {timer next : Timer Event}
    {label : TimerLabel Event} (step : TimerStep maxLag timer label next)
    (consistent : timer.Consistent) (armed : timer.Armed maxLag) : next.Armed maxLag := by
  cases step with
  | pass => exact armed
  | addTimerEvent delays lags prompt absent =>
      exact Timer.addTimerEvent_armed (consistent.during delays lags) prompt armed absent
  | deleteTimerEvent event => exact Timer.deleteTimerEvent_armed consistent armed event
  | onTimer delays lags prompt =>
      exact Timer.onTimer_armed (consistent.during delays lags) prompt

theorem reachable_armed {maxLag : Nat} {timer : Timer Event}
    (reachable : (timerSystem Event maxLag).Reachable timer) :
    timer.Consistent ∧ timer.Armed maxLag := by
  apply reachable.invariant fun timer => timer.Consistent ∧ timer.Armed maxLag
  · intro initial started
    have empty : initial.pendingEvents = [] := started
    refine ⟨.of_empty empty, fun entry member => ?_⟩
    rw [empty] at member
    cases member
  · intro current label next invariant step
    exact ⟨TimerStep.consistent step invariant.1, TimerStep.armed step invariant.1 invariant.2⟩

/-- Where an arming takes no time after its reading of the clock, the timerfd is
due by the earliest arrival or 100 ms after it was armed. -/
theorem timerfd_covers_pending {timer : Timer Event}
    (reachable : (timerSystem Event 0).Reachable timer) (pending : timer.pendingEvents ≠ []) :
    ∃ deadline, timer.timerfd.deadline = some deadline ∧
      ∀ entry ∈ timer.pendingEvents,
        deadline ≤ max (timer.events entry.2).arriveTime (timer.timerfd.armedAt + 100) := by
  have invariant := reachable_armed reachable
  rcases List.exists_mem_of_ne_nil _ pending with ⟨first, inside⟩
  rcases invariant.2 first inside with ⟨deadline, armed, _⟩
  refine ⟨deadline, armed, fun entry member => ?_⟩
  rcases invariant.2 entry member with ⟨other, alsoArmed, bound⟩
  rw [armed] at alsoArmed
  rw [Option.some.inj alsoArmed, ← invariant.1.keyed entry member]
  rw [Int.natCast_zero, Int.add_zero] at bound
  exact bound

theorem timerfd_covers_twoEvents :
    ∃ deadline, (((twoEventsPending.pass 12).during [] []).onTimer).timerfd.deadline =
        some deadline ∧
      ∀ entry ∈ (((twoEventsPending.pass 12).during [] []).onTimer).pendingEvents,
        deadline ≤ max ((((twoEventsPending.pass 12).during [] []).onTimer).events
            entry.2).arriveTime
          ((((twoEventsPending.pass 12).during [] []).onTimer).timerfd.armedAt + 100) :=
  timerfd_covers_pending ⟨twoEvents, _, rfl, twoEvents_run⟩ (by decide)

end NetRpc.EventLoop
