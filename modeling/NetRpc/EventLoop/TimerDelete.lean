import NetRpc.EventLoop.Timer

/-! # Deleting a timer

`onTimer` copies the callbacks that are due before it runs any of them. A
callback can delete an event whose own callback has been copied and is still to
come. The flag that the deletion sets is looked at by later batches only, and
the deletion erases one entry, at the arrival time that the event has now.
-/

namespace NetRpc.EventLoop

open SortedMap

variable {Event : Type u} [DecidableEq Event]

/-- A timer and the tasks that `onTimer` has still to run, `none` outside of it. -/
structure FiringTimer (Event : Type u) where
  timer : Timer Event
  tasks : Option (List Event) := none

/-- What happens between the callbacks of `onTimer`, and in them. -/
inductive FiringLabel (Event : Type u)
  | pass (time : Nat)
  | addTimerEvent (event : Event) (delays lags : List Nat)
  | deleteTimerEvent (event : Event)
  /-- `onTimer` is called and comes to the loop over its tasks. -/
  | onTimer (delays lags : List Nat)
  /-- The callback of `event` is started. -/
  | start (event : Event)
  /-- `onTimer` returns. -/
  | finish

namespace FiringTimer

def step (firing : FiringTimer Event) : FiringLabel Event → Option (FiringTimer Event)
  | .pass time => some { firing with timer := firing.timer.pass time }
  | .addTimerEvent event delays lags =>
      some { firing with timer := (firing.timer.during delays lags).addTimerEvent event }
  | .deleteTimerEvent event =>
      some { firing with timer := firing.timer.deleteTimerEvent event }
  | .onTimer delays lags =>
      match firing.tasks with
      | none =>
          let started := firing.timer.during delays lags
          some { timer := started.onTimer, tasks := some (started.drained.tasks.map Prod.snd) }
      | some _ => none
  | .start event =>
      match firing.tasks with
      | some (front :: rest) =>
          if front = event then some { firing with tasks := some rest } else none
      | _ => none
  | .finish =>
      match firing.tasks with
      | some [] => some { firing with tasks := none }
      | _ => none

end FiringTimer

/-- A timer in the loop thread. It starts with no events. -/
def firingTimer (Event : Type u) [DecidableEq Event] :
    Transition.System (FiringTimer Event) (FiringLabel Event) where
  Initial firing := firing.timer.pendingEvents = [] ∧ firing.tasks = none
  Step firing label next := firing.step label = some next

namespace FiringTimer

/-- The tasks that are still ahead in the batch. -/
def ahead (firing : FiringTimer Event) : List Event :=
  firing.tasks.getD []

/-- `event` is not pending, and its callback is never started again. -/
structure Gone (firing : FiringTimer Event) (event : Event) : Prop where
  notPending : event ∉ firing.timer.pendingEvents.map Prod.snd
  silent : ∀ labels final, (firingTimer Event).Run firing labels final → .start event ∉ labels

/-- What has been deleted is gone when `deleteTimerEvent` has returned. -/
def DeletedIsGone (_ : FiringTimer Event) (label : FiringLabel Event)
    (next : FiringTimer Event) : Prop :=
  ∀ event, label = .deleteTimerEvent event → next.Gone event

/-- `event` has no entry, or only one, and that at its arrival time. -/
def SoleEntry (timer : Timer Event) (event : Event) : Prop :=
  (timer.pendingEvents.filter fun entry => entry.2 = event) = [] ∨
    (timer.pendingEvents.filter fun entry => entry.2 = event) =
      [((timer.events event).arriveTime, event)]

/-- What is deleted is not ahead in the batch, and has one entry at most. -/
def DeletesInTime (firing : FiringTimer Event) (label : FiringLabel Event) : Prop :=
  ∀ event, label = .deleteTimerEvent event →
    event ∉ firing.ahead ∧ SoleEntry firing.timer event

/-! ## The steps -/

variable {firing next final : FiringTimer Event} {event : Event}

theorem step_onTimer {delays lags : List Nat}
    (stepped : firing.step (.onTimer delays lags) = some next) :
    firing.tasks = none ∧
      next =
        { timer := (firing.timer.during delays lags).onTimer
          tasks := some ((firing.timer.during delays lags).drained.tasks.map Prod.snd) } := by
  cases tasks : firing.tasks with
  | none =>
      simp only [step, tasks, Option.some.injEq] at stepped
      exact ⟨rfl, stepped.symm⟩
  | some =>
      simp only [step, tasks] at stepped
      cases stepped

theorem step_start (stepped : firing.step (.start event) = some next) :
    ∃ rest, firing.tasks = some (event :: rest) ∧
      next = { firing with tasks := some rest } := by
  simp only [step] at stepped
  split at stepped
  case h_1 front rest tasks =>
    rw [Option.ite_none_right_eq_some] at stepped
    rcases stepped with ⟨rfl, ⟨⟩⟩
    exact ⟨rest, tasks, rfl⟩
  case h_2 => cases stepped

theorem step_finish (stepped : firing.step .finish = some next) :
    firing.tasks = some [] ∧ next = { firing with tasks := none } := by
  simp only [step] at stepped
  split at stepped
  case h_1 tasks =>
    cases stepped
    exact ⟨tasks, rfl⟩
  case h_2 => cases stepped

/-- The tasks ahead are started in turn. -/
theorem run_starts (timer : Timer Event) (tasks rest : List Event) :
    (firingTimer Event).Run { timer, tasks := some (tasks ++ rest) } (tasks.map .start)
      { timer, tasks := some rest } := by
  induction tasks with
  | nil => exact .nil _
  | cons front tasks induction =>
      have started : FiringTimer.step { timer, tasks := some (front :: tasks ++ rest) }
          (.start front) = some { timer, tasks := some (tasks ++ rest) } := if_pos rfl
      exact .cons started induction

/-! ## The order of the entries -/

theorem foldl_addRepeated_sorted (batch : List Event) {timer : Timer Event}
    (sorted : Sorted timer.pendingEvents) :
    Sorted (batch.foldl Timer.addRepeated timer).pendingEvents := by
  induction batch generalizing timer with
  | nil => exact sorted
  | cons first rest induction =>
      apply induction
      rw [Timer.addRepeated]
      split
      · rw [Timer.addTimerEvent_pendingEvents]
        exact sorted.emplace
      · exact sorted

theorem onTimer_sorted {timer : Timer Event} (sorted : Sorted timer.pendingEvents) :
    Sorted timer.onTimer.pendingEvents := by
  rw [Timer.onTimer, Timer.resetArriveTime_pendingEvents]
  apply foldl_addRepeated_sorted
  exact sorted.sublist (List.dropWhile_sublist _)

theorem deleteTimerEvent_sorted {timer : Timer Event} (sorted : Sorted timer.pendingEvents)
    (event : Event) : Sorted (timer.deleteTimerEvent event).pendingEvents :=
  sorted.sublist (sorted.eraseInRange_sublist _ _)

theorem sorted_step {label : FiringLabel Event} (sorted : Sorted firing.timer.pendingEvents)
    (stepped : firing.step label = some next) : Sorted next.timer.pendingEvents := by
  cases label with
  | pass time =>
      cases stepped
      exact sorted
  | addTimerEvent other delays lags =>
      cases stepped
      rw [Timer.addTimerEvent_pendingEvents]
      exact sorted.emplace
  | deleteTimerEvent other =>
      cases stepped
      exact deleteTimerEvent_sorted sorted other
  | onTimer delays lags =>
      rcases step_onTimer stepped with ⟨_, rfl⟩
      exact onTimer_sorted sorted
  | start other =>
      rcases step_start stepped with ⟨rest, _, rfl⟩
      exact sorted
  | finish =>
      rcases step_finish stepped with ⟨_, rfl⟩
      exact sorted

/-! ## Deleted events -/

/-- A deleted event that is not ahead in the batch. -/
structure Silenced (firing : FiringTimer Event) (event : Event) : Prop where
  isCancled : (firing.timer.events event).isCancled = true
  notAhead : event ∉ firing.ahead

theorem foldl_addRepeated_isCancled (batch : List Event) (timer : Timer Event) (event : Event) :
    ((batch.foldl Timer.addRepeated timer).events event).isCancled =
      (timer.events event).isCancled := by
  induction batch generalizing timer with
  | nil => rfl
  | cons first rest induction =>
      rw [List.foldl_cons, induction]
      by_cases same : event = first
      · rcases Timer.addRepeated_events_self timer first with ⟨arriveTime, changed, _⟩
        rw [same, changed]
      · rw [Timer.addRepeated_events_of_ne same]

theorem onTimer_isCancled (timer : Timer Event) (event : Event) :
    (timer.onTimer.events event).isCancled = (timer.events event).isCancled := by
  rw [Timer.onTimer, Timer.resetArriveTime_events, foldl_addRepeated_isCancled]
  rfl

omit [DecidableEq Event] in
/-- A batch leaves out the events that have been deleted before it is cut. -/
theorem notMem_tasks_of_isCancled {timer : Timer Event}
    (isCancled : (timer.events event).isCancled = true) :
    event ∉ timer.tasks.map Prod.snd := by
  intro member
  rw [Timer.tasks, List.map_map, List.mem_map] at member
  rcases member with ⟨entry, kept, same⟩
  have listed : entry.2 = event := same
  rw [List.mem_filter, listed, isCancled] at kept
  cases kept.2

theorem deleteTimerEvent_isCancled (timer : Timer Event) (event : Event) :
    ((timer.deleteTimerEvent event).events event).isCancled = true := by
  simp [Timer.deleteTimerEvent, Timer.setCancled]

theorem deleteTimerEvent_keeps_isCancled {timer : Timer Event} (other : Event)
    (isCancled : (timer.events event).isCancled = true) :
    ((timer.deleteTimerEvent other).events event).isCancled = true := by
  by_cases same : event = other
  · rw [same, deleteTimerEvent_isCancled]
  · simp [Timer.deleteTimerEvent, Timer.setCancled, same, isCancled]

theorem Silenced.step {label : FiringLabel Event} (silenced : firing.Silenced event)
    (stepped : firing.step label = some next) :
    next.Silenced event ∧ label ≠ .start event := by
  rcases silenced with ⟨isCancled, notAhead⟩
  cases label with
  | pass time =>
      cases stepped
      exact ⟨⟨isCancled, notAhead⟩, nofun⟩
  | addTimerEvent other delays lags =>
      cases stepped
      refine ⟨⟨?_, notAhead⟩, nofun⟩
      rw [Timer.addTimerEvent_events]
      exact isCancled
  | deleteTimerEvent other =>
      cases stepped
      exact ⟨⟨deleteTimerEvent_keeps_isCancled other isCancled, notAhead⟩, nofun⟩
  | onTimer delays lags =>
      rcases step_onTimer stepped with ⟨_, rfl⟩
      refine ⟨⟨?_, notMem_tasks_of_isCancled isCancled⟩, nofun⟩
      rw [onTimer_isCancled]
      exact isCancled
  | start other =>
      rcases step_start stepped with ⟨rest, tasks, rfl⟩
      rw [ahead, tasks, Option.getD_some, List.mem_cons, not_or] at notAhead
      refine ⟨⟨isCancled, notAhead.2⟩, ?_⟩
      rintro ⟨⟩
      exact notAhead.1 rfl
  | finish =>
      rcases step_finish stepped with ⟨_, rfl⟩
      exact ⟨⟨isCancled, List.not_mem_nil⟩, nofun⟩

theorem Silenced.run {labels : List (FiringLabel Event)} (silenced : firing.Silenced event)
    (run : (firingTimer Event).Run firing labels final) : .start event ∉ labels := by
  induction run with
  | nil => exact List.not_mem_nil
  | cons stepped _ induction =>
      have here := silenced.step stepped
      rw [List.mem_cons, not_or]
      exact ⟨Ne.symm here.2, induction here.1⟩

/-- An event that is ahead in the batch is going to be started. -/
theorem exists_run_start (inside : event ∈ firing.ahead) :
    ∃ labels final, (firingTimer Event).Run firing labels final ∧ .start event ∈ labels := by
  rcases firing with ⟨timer, tasks⟩
  cases tasks with
  | none => cases inside
  | some tasks =>
      rcases List.append_of_mem inside with ⟨before, after, split⟩
      have tasks_eq : tasks = (before ++ [event]) ++ after := by
        rw [List.append_assoc]
        exact split
      rw [tasks_eq]
      refine ⟨_, _, run_starts timer (before ++ [event]) after, ?_⟩
      exact List.mem_map_of_mem (List.mem_append_right before List.mem_cons_self)

theorem notMem_map_snd_iff (entries : List (Int × Event)) (event : Event) :
    event ∉ entries.map Prod.snd ↔ (entries.filter fun entry => entry.2 = event) = [] := by
  rw [List.filter_eq_nil_iff, List.mem_map, not_exists]
  apply forall_congr'
  intro entry
  rw [not_and, decide_eq_true_eq]

/-- A deletion leaves no entry of its event exactly if there was one at most. -/
theorem notPending_iff {timer : Timer Event} (sorted : Sorted timer.pendingEvents)
    (event : Event) :
    event ∉ (timer.deleteTimerEvent event).pendingEvents.map Prod.snd ↔
      SoleEntry timer event := by
  have arriveTime : ((timer.setCancled event).events event).arriveTime =
      (timer.events event).arriveTime := by
    simp [Timer.setCancled]
  rw [notMem_map_snd_iff, Timer.deleteTimerEvent, arriveTime]
  exact sorted.filter_eraseInRange_eq_nil_iff

/-- A deleted event is gone exactly if it is not pending and not ahead. -/
theorem gone_iff (isCancled : (firing.timer.events event).isCancled = true) :
    firing.Gone event ↔
      event ∉ firing.ahead ∧ event ∉ firing.timer.pendingEvents.map Prod.snd := by
  constructor
  · rintro ⟨notPending, silent⟩
    refine ⟨fun inside => ?_, notPending⟩
    rcases exists_run_start inside with ⟨labels, final, run, started⟩
    exact silent labels final run started
  · rintro ⟨notAhead, notPending⟩
    exact ⟨notPending, fun labels final run => Silenced.run ⟨isCancled, notAhead⟩ run⟩

/-- A deletion does what it is for exactly if the event is not ahead in the
batch and has one entry at most. -/
theorem deletedIsGone_iff {label : FiringLabel Event} (sorted : Sorted firing.timer.pendingEvents)
    (stepped : firing.step label = some next) :
    DeletedIsGone firing label next ↔ firing.DeletesInTime label := by
  apply forall_congr'
  intro event
  apply imp_congr_right
  rintro rfl
  cases stepped
  rw [gone_iff (deleteTimerEvent_isCancled _ _), notPending_iff sorted]
  rfl

end FiringTimer

/-- In a run, every deleted event is gone exactly if every deletion is of an
event that is not ahead in the batch and has one entry at most. -/
theorem deletedIsGone_run_iff {initial : FiringTimer Event}
    (isInitial : (firingTimer Event).Initial initial) (labels : List (FiringLabel Event)) :
    (firingTimer Event).EachStep FiringTimer.DeletedIsGone initial labels ↔
      (firingTimer Event).EachStep (fun current label _ => current.DeletesInTime label)
        initial labels := by
  apply Transition.System.eachStep_iff
  case invariant => exact fun firing => Sorted firing.timer.pendingEvents
  case preserved => exact fun _ _ _ sorted stepped _ => FiringTimer.sorted_step sorted stepped
  case good_iff => exact fun _ _ _ sorted stepped => FiringTimer.deletedIsGone_iff sorted stepped
  case start =>
    rw [isInitial.1]
    exact List.Pairwise.nil

/-- An empty timer, and two events that arrive together. -/
def twoTogether : FiringTimer Bool where
  timer :=
    { clock := { now := 0, delays := [], lags := [] }
      timerfd := { deadline := none, armedAt := 0 }
      events _ := { arriveTime := 50, interval := 0, isRepeated := false, isCancled := false }
      pendingEvents := [] }

theorem FiringTimer.run_of_pending {labels : List (FiringLabel Bool)} {pending : List (Int × Bool)}
    (computed : (labels.foldlM FiringTimer.step twoTogether).map
      (fun firing => firing.timer.pendingEvents) = some pending) :
    ∃ final, (firingTimer Bool).Run twoTogether labels final ∧
      final.timer.pendingEvents = pending :=
  Transition.System.Run.of_observed (fun _ _ _ stepped => stepped) computed

/-- Both events are added and have arrived, and the callback of the first runs. -/
def firstRuns : List (FiringLabel Bool) :=
  [.addTimerEvent true [] [], .addTimerEvent false [] [], .pass 50, .onTimer [] [], .start true]

/-- The callback of the first event deletes that event. -/
theorem deletedIsGone_run_iff_itself :
    let labels := firstRuns ++ [.deleteTimerEvent true, .start false, .finish]
    (∃ final, (firingTimer Bool).Run twoTogether labels final ∧
      final.timer.pendingEvents = []) ∧
      ((firingTimer Bool).EachStep FiringTimer.DeletedIsGone twoTogether labels ↔
        (firingTimer Bool).EachStep (fun current label _ => current.DeletesInTime label)
          twoTogether labels) :=
  ⟨FiringTimer.run_of_pending (by decide +kernel), deletedIsGone_run_iff ⟨rfl, rfl⟩ _⟩

/-- The callback of the first event deletes the second, which is in the same
batch and is started all the same. -/
theorem deleted_started :
    let labels := firstRuns ++ .deleteTimerEvent false :: [.start false, .finish]
    ∃ final, (firingTimer Bool).Run twoTogether labels final ∧
      ¬(firingTimer Bool).EachStep FiringTimer.DeletedIsGone twoTogether labels := by
  intro labels
  have computed : (labels.foldlM FiringTimer.step twoTogether).map
      (fun firing => firing.timer.pendingEvents) = some [] := by
    decide +kernel
  rcases FiringTimer.run_of_pending computed with ⟨final, run, _⟩
  refine ⟨final, run, fun each => ?_⟩
  rcases run.split with ⟨current, before, after⟩
  cases after with
  | cons stepped rest =>
      have isPrefix : firstRuns ++ [.deleteTimerEvent false] <+: labels :=
        ⟨[.start false, .finish], rfl⟩
      have gone := each firstRuns current _ _ isPrefix before stepped false rfl
      exact gone.silent _ final rest List.mem_cons_self

end NetRpc.EventLoop
