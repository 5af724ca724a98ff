import NetRpc.EventLoop.Timer

/-! # Timer dispatch

To its callers a timer is the queue of what was added, in the order of addition.
Each `onTimer` takes the due part out of it, runs that part in arrival order and
puts the repeated events back at the end. The multimap is this queue, sorted.
-/

namespace NetRpc.EventLoop

open SortedMap

variable {Event : Type u} [DecidableEq Event]

def queueAfter (queue : List (Int × Event)) : TimerLabel Event → List (Int × Event)
  | .pass => queue
  | .addTimerEvent arriveTime event => queue ++ [(arriveTime, event)]
  | .deleteTimerEvent event => queue.filter fun entry => entry.2 ≠ event
  | .onTimer now _ readded => queue.filter (fun entry => now < entry.1) ++ readded

/-- What is pending after a history, in the order of addition. -/
def queueOf (history : List (TimerLabel Event)) : List (Int × Event) :=
  history.foldl queueAfter []

def runTimesOf (event : Event) : TimerLabel Event → List Int
  | .onTimer now tasks _ =>
      (tasks.filter fun entry => entry.2 = event).map fun _ => now
  | _ => []

/-- The times at which `event` was run. -/
def runTimes (event : Event) (history : List (TimerLabel Event)) : List Int :=
  history.flatMap (runTimesOf event)

def isAddition (event : Event) : TimerLabel Event → Bool
  | .addTimerEvent _ other => other = event
  | _ => false

/-- What one `onTimer` does to a timer whose entries are those of `queue`. -/
structure Dispatched (queue : List (Int × Event)) (timer : Timer Event) (now : Int)
    (tasks readded : List (Int × Event)) (next : Timer Event) : Prop where
  later : timer.clock.now ≤ now
  /-- Exactly the due events run, by arrival time and then by order of addition. -/
  due : StableSort
    (queue.filter fun entry => entry.1 ≤ now && !(timer.events entry.2).isCancled) tasks
  once : (tasks.map Prod.snd).Nodup
  notEarly : ∀ entry ∈ tasks, (timer.events entry.2).arriveTime ≤ now
  untouched : ∀ entry ∈ timer.pendingEvents, now < entry.1 →
    entry ∈ next.pendingEvents ∧ next.events entry.2 = timer.events entry.2
  pending : StableSort (queue.filter (fun entry => now < entry.1) ++ readded)
    next.pendingEvents
  repeated : readded.map Prod.snd =
    (tasks.map Prod.snd).filter fun event => (timer.events event).isRepeated
  spaced : ∀ entry ∈ readded, now + (timer.events entry.2).interval ≤ entry.1

theorem onTimer_dispatched {timer : Timer Event} {queue : List (Int × Event)}
    (consistent : timer.Consistent) (stable : StableSort queue timer.pendingEvents)
    (delays lags : List Nat) :
    let started := timer.during delays lags
    Dispatched queue timer started.drained.clock.now started.drained.tasks
      (started.onTimer.readded (started.drained.tasks.map Prod.snd)) started.onTimer := by
  intro started
  have cut : started.drained.Consistent := consistent.restrict (.refl _) fun _ => rfl
  have tasks : started.drained.tasks = timer.pendingEvents.filter fun entry =>
      entry.1 ≤ started.drained.clock.now && !(timer.events entry.2).isCancled :=
    Timer.tasks_eq cut
  have left : started.drained.eraseDue.pendingEvents =
      timer.pendingEvents.filter fun entry => started.drained.clock.now < entry.1 :=
    Timer.eraseDue_pendingEvents cut
  have reloaded := Timer.onTimer_reloaded (consistent.during delays lags)
  have events : ∀ event ∈ started.drained.tasks.map Prod.snd,
      ∃ arriveTime, started.onTimer.events event =
          { timer.events event with arriveTime := arriveTime } ∧
        ((timer.events event).isRepeated = true →
          started.drained.clock.now + (timer.events event).interval ≤ arriveTime) :=
    reloaded.members
  have pending := reloaded.sorts (queue.filter fun entry => started.drained.clock.now < entry.1)
    (left ▸ stable.filter _)
  refine ⟨started.drained_le, ?_, ?_, ?_, ?_, pending, ?_, ?_⟩
  · rw [tasks]
    exact stable.filter _
  · rw [tasks]
    exact consistent.distinct.sublist (List.filter_sublist.map _)
  · intro entry member
    rw [tasks, List.mem_filter, Bool.and_eq_true, decide_eq_true_eq] at member
    rw [← consistent.keyed entry member.1]
    exact member.2.1
  · intro entry member later
    have queued := stable.mem_iff.mp member
    have outside : entry.2 ∉ started.drained.tasks.map Prod.snd := by
      intro inside
      rcases List.mem_map.mp inside with ⟨other, otherMember, same⟩
      rw [tasks, List.mem_filter, Bool.and_eq_true, decide_eq_true_eq] at otherMember
      have otherKeyed := consistent.keyed other otherMember.1
      rw [same, ← consistent.keyed entry member] at otherKeyed
      omega
    refine ⟨pending.mem_iff.mpr ?_, reloaded.others entry.2 outside⟩
    apply List.mem_append_left
    rw [List.mem_filter, decide_eq_true_eq]
    exact ⟨queued, later⟩
  · rw [Timer.readded, List.map_map]
    change List.map id _ = _
    rw [List.map_id]
    apply List.filter_congr
    intro event member
    rcases events event member with ⟨_, changed, _⟩
    rw [changed]
  · intro entry member
    rcases List.mem_map.mp member with ⟨event, eventMember, rfl⟩
    rw [List.mem_filter] at eventMember
    rcases events event eventMember.1 with ⟨arriveTime, changed, later⟩
    rw [changed] at eventMember ⊢
    exact later eventMember.2

/-! ## Whole histories -/

/-- The multimap is the queue, sorted, and only deleted events are cancelled. -/
structure Ordered (history : List (TimerLabel Event)) (timer : Timer Event) : Prop where
  consistent : timer.Consistent
  stable : StableSort (queueOf history) timer.pendingEvents
  intervals : ∀ event, 0 ≤ (timer.events event).interval
  cancled : ∀ event, (timer.events event).isCancled = true →
    .deleteTimerEvent event ∈ history

theorem queueOf_concat (history : List (TimerLabel Event)) (label : TimerLabel Event) :
    queueOf (history ++ [label]) = queueAfter (queueOf history) label :=
  List.foldl_concat _ _ _ _

theorem TimerStep.stable {maxLag : Nat} {timer next : Timer Event}
    {label : TimerLabel Event} {queue : List (Int × Event)}
    (step : TimerStep maxLag timer label next) (consistent : timer.Consistent)
    (stable : StableSort queue timer.pendingEvents) :
    StableSort (queueAfter queue label) next.pendingEvents := by
  cases step with
  | pass => exact stable
  | addTimerEvent delays lags =>
      rw [Timer.addTimerEvent_pendingEvents]
      exact stable.emplace _ _
  | deleteTimerEvent event =>
      rw [consistent.deleteTimerEvent_pendingEvents]
      exact stable.filter _
  | onTimer delays lags =>
      exact (onTimer_dispatched consistent stable delays lags).pending

theorem Ordered.step {maxLag : Nat} {timer next : Timer Event} {label : TimerLabel Event}
    {history : List (TimerLabel Event)} (ordered : Ordered history timer)
    (step : TimerStep maxLag timer label next) : Ordered (history ++ [label]) next where
  consistent := step.consistent ordered.consistent
  stable := by
    rw [queueOf_concat]
    exact step.stable ordered.consistent ordered.stable
  intervals event := by
    rw [(step.event_eq ordered.consistent event).1]
    exact ordered.intervals event
  cancled event isCancled := by
    rw [(step.event_eq ordered.consistent event).2.2, Bool.or_eq_true,
      decide_eq_true_eq] at isCancled
    rcases isCancled with before | now
    · exact List.mem_append_left _ (ordered.cancled event before)
    · exact List.mem_append_right _ (now ▸ List.mem_singleton_self label)

/-- No events are pending yet. The events that there are repeat after some time and
have not been cancelled. -/
structure Timer.Initial (timer : Timer Event) : Prop where
  empty : timer.pendingEvents = []
  intervals : ∀ event, 0 ≤ (timer.events event).interval
  notCancled : ∀ event, (timer.events event).isCancled = false

theorem Timer.Initial.ordered {timer : Timer Event} (initial : timer.Initial) :
    Ordered [] timer where
  consistent := .of_empty initial.empty
  stable := by
    rw [initial.empty]
    exact .nil
  intervals := initial.intervals
  cancled event isCancled := by
    rw [initial.notCancled event] at isCancled
    cases isCancled

/-! ### One-shot events -/

/-- The number of entries of an event. -/
def Timer.entriesOf (timer : Timer Event) (event : Event) : Nat :=
  (timer.pendingEvents.map Prod.snd).count event

theorem entriesOf_addTimerEvent (timer : Timer Event) (other event : Event) :
    (timer.addTimerEvent other).entriesOf event =
      timer.entriesOf event + if other = event then 1 else 0 := by
  rw [Timer.entriesOf, Timer.addTimerEvent_pendingEvents,
    ((emplace_perm _ other timer.pendingEvents).map Prod.snd).count_eq, List.map_cons,
    List.count_cons, Timer.entriesOf]
  simp

theorem runTimesOf_length (event : Event) (now : Int) (tasks readded : List (Int × Event)) :
    (runTimesOf event (.onTimer now tasks readded)).length =
      (tasks.map Prod.snd).count event := by
  rw [runTimesOf, List.length_map, List.count_eq_countP, List.countP_map,
    List.countP_eq_length_filter]
  rfl

/-- What is run and what stays pending was pending before. -/
theorem Dispatched.count_le {queue tasks readded : List (Int × Event)}
    {timer next : Timer Event} {now : Int} (stable : StableSort queue timer.pendingEvents)
    (dispatched : Dispatched queue timer now tasks readded next) {event : Event}
    (oneShot : (timer.events event).isRepeated = false) :
    (tasks.map Prod.snd).count event + next.entriesOf event ≤ timer.entriesOf event := by
  have none : (readded.map Prod.snd).count event = 0 := by
    rw [List.count_eq_zero, dispatched.repeated, List.mem_filter, oneShot]
    simp
  have dueLe : (tasks.map Prod.snd).count event ≤
      ((queue.filter fun entry => entry.1 ≤ now).map Prod.snd).count event := by
    rw [(dispatched.due.perm.map Prod.snd).count_eq]
    apply List.Sublist.count_le
    apply List.Sublist.map
    have fewer : (queue.filter fun entry =>
        entry.1 ≤ now && !(timer.events entry.2).isCancled) =
          (queue.filter fun entry => entry.1 ≤ now).filter fun entry =>
            !(timer.events entry.2).isCancled := by
      rw [List.filter_filter]
      apply List.filter_congr
      intro entry _
      exact Bool.and_comm _ _
    rw [fewer]
    exact List.filter_sublist
  have split : ((queue.filter fun entry => entry.1 ≤ now).map Prod.snd).count event +
      ((queue.filter fun entry => now < entry.1).map Prod.snd).count event =
        timer.entriesOf event := by
    have partition := List.filter_append_perm (fun entry : Int × Event => entry.1 ≤ now) queue
    have complement : (queue.filter fun entry => !decide (entry.1 ≤ now)) =
        queue.filter fun entry => now < entry.1 := by
      apply List.filter_congr
      intro entry _
      rw [Bool.eq_iff_iff]
      simp
    rw [complement] at partition
    rw [Timer.entriesOf, ((partition.trans stable.perm.symm).symm.map Prod.snd).count_eq,
      List.map_append, List.count_append]
  have after : next.entriesOf event =
      ((queue.filter fun entry => now < entry.1).map Prod.snd).count event := by
    rw [Timer.entriesOf, (dispatched.pending.perm.map Prod.snd).count_eq, List.map_append,
      List.count_append, none, Nat.add_zero]
  omega

/-- Every run of a one-shot event, and every entry it still has, was added. -/
def Paid (event : Event) (history : List (TimerLabel Event)) (timer : Timer Event) : Prop :=
  (timer.events event).isRepeated = false →
    (runTimes event history).length + timer.entriesOf event ≤
      history.countP (isAddition event)

theorem Paid.step {maxLag : Nat} {timer next : Timer Event} {label : TimerLabel Event}
    {history : List (TimerLabel Event)} {event : Event} (ordered : Ordered history timer)
    (paid : Paid event history timer) (step : TimerStep maxLag timer label next) :
    Paid event (history ++ [label]) next := by
  intro oneShot
  rw [(step.event_eq ordered.consistent event).2.1] at oneShot
  have before := paid oneShot
  rw [runTimes, List.flatMap_append, List.length_append, List.countP_append,
    List.flatMap_singleton]
  rw [runTimes] at before
  cases step with
  | pass time =>
      have same : (timer.pass time).entriesOf event = timer.entriesOf event := rfl
      simp only [runTimesOf, List.length_nil, same]
      omega
  | @addTimerEvent other delays lags =>
      rw [entriesOf_addTimerEvent]
      have same : (timer.during delays lags).entriesOf event = timer.entriesOf event := rfl
      simp only [runTimesOf, List.length_nil, same, List.countP_singleton, isAddition,
        decide_eq_true_eq]
      omega
  | deleteTimerEvent other =>
      have fewer : (timer.deleteTimerEvent other).entriesOf event ≤ timer.entriesOf event := by
        rw [Timer.entriesOf, ordered.consistent.deleteTimerEvent_pendingEvents]
        exact (List.filter_sublist.map _).count_le _
      simp only [runTimesOf, List.length_nil]
      omega
  | onTimer delays lags =>
      have dispatched := onTimer_dispatched ordered.consistent ordered.stable delays lags
      have counted := dispatched.count_le ordered.stable oneShot
      rw [runTimesOf_length]
      omega

/-! ### Repeated events -/

omit [DecidableEq Event] in
/-- A repeated event that is due is put back, at least one interval later. -/
theorem Dispatched.stays {queue tasks readded : List (Int × Event)}
    {timer next : Timer Event} {now key : Int} {event : Event}
    (stable : StableSort queue timer.pendingEvents)
    (dispatched : Dispatched queue timer now tasks readded next)
    (pending : (key, event) ∈ timer.pendingEvents)
    (repeated : (timer.events event).isRepeated = true)
    (notCancled : (timer.events event).isCancled = false) :
    (now < key ∧ (key, event) ∈ next.pendingEvents) ∨
      (key ≤ now ∧ ∃ later, (later, event) ∈ next.pendingEvents ∧
        now + (timer.events event).interval ≤ later) := by
  rcases Int.lt_or_le now key with notDue | due
  · exact .inl ⟨notDue, (dispatched.untouched _ pending notDue).1⟩
  · right
    have ran : (key, event) ∈ tasks := by
      rw [dispatched.due.mem_iff, List.mem_filter]
      refine ⟨stable.mem_iff.mp pending, ?_⟩
      simp [due, notCancled]
    have again : event ∈ readded.map Prod.snd := by
      rw [dispatched.repeated, List.mem_filter]
      exact ⟨List.mem_map_of_mem ran, repeated⟩
    rcases List.mem_map.mp again with ⟨entry, member, rfl⟩
    exact ⟨due, entry.1, dispatched.pending.mem_iff.mpr (List.mem_append_right _ member),
      dispatched.spaced entry member⟩

/-- An event that an `onTimer` runs is run once. -/
theorem Dispatched.runTimesOf_eq {queue tasks readded : List (Int × Event)}
    {timer next : Timer Event} {now : Int} {event : Event}
    (dispatched : Dispatched queue timer now tasks readded next)
    (some : runTimesOf event (.onTimer now tasks readded) ≠ []) :
    ∃ key, (key, event) ∈ tasks ∧ runTimesOf event (.onTimer now tasks readded) = [now] := by
  rw [runTimesOf, ne_eq, List.map_eq_nil_iff, ← ne_eq] at some
  rcases List.exists_mem_of_ne_nil _ some with ⟨entry, member⟩
  rw [List.mem_filter, decide_eq_true_eq] at member
  rcases member with ⟨inside, rfl⟩
  have single : (runTimesOf entry.2 (.onTimer now tasks readded)).length = 1 := by
    rw [runTimesOf_length]
    exact List.count_eq_one_of_mem dispatched.once (List.mem_map_of_mem inside)
  refine ⟨entry.1, inside, ?_⟩
  rw [runTimesOf, List.length_map] at single
  rw [runTimesOf, List.map_const', single]
  rfl

/-- The runs of a repeated event are spaced, and so is its next one. -/
def Spaced (event : Event) (history : List (TimerLabel Event)) (timer : Timer Event) :
    Prop :=
  (timer.events event).isRepeated = true →
    (runTimes event history).Pairwise (fun earlier later =>
        earlier + (timer.events event).interval ≤ later) ∧
      ((timer.events event).isCancled = false → ∀ time ∈ runTimes event history,
        ∃ key, (key, event) ∈ timer.pendingEvents ∧
          time + (timer.events event).interval ≤ key)

theorem runTimes_concat (event : Event) (history : List (TimerLabel Event))
    (label : TimerLabel Event) :
    runTimes event (history ++ [label]) = runTimes event history ++ runTimesOf event label := by
  rw [runTimes, List.flatMap_append, List.flatMap_singleton, runTimes]

theorem TimerStep.notCancled_before {maxLag : Nat} {timer next : Timer Event}
    {label : TimerLabel Event} {event : Event} (step : TimerStep maxLag timer label next)
    (consistent : timer.Consistent) (notCancled : (next.events event).isCancled = false) :
    (timer.events event).isCancled = false ∧ label ≠ .deleteTimerEvent event := by
  rw [(step.event_eq consistent event).2.2, Bool.or_eq_false_iff,
    decide_eq_false_iff_not] at notCancled
  exact notCancled

/-- An event that was not run is in the same place, unless it was deleted. -/
theorem TimerStep.remains {maxLag : Nat} {timer next : Timer Event}
    {label : TimerLabel Event} {queue : List (Int × Event)} {entry : Int × Event}
    (step : TimerStep maxLag timer label next) (consistent : timer.Consistent)
    (stable : StableSort queue timer.pendingEvents)
    (pending : entry ∈ timer.pendingEvents)
    (notRun : runTimesOf entry.2 label = [])
    (notCancled : (next.events entry.2).isCancled = false) :
    entry ∈ next.pendingEvents := by
  have before := step.notCancled_before consistent notCancled
  cases step with
  | pass => exact pending
  | addTimerEvent delays lags =>
      rw [Timer.addTimerEvent_pendingEvents]
      exact mem_emplace.mpr (.inr pending)
  | deleteTimerEvent other =>
      rw [consistent.deleteTimerEvent_pendingEvents, List.mem_filter]
      refine ⟨pending, ?_⟩
      rw [decide_eq_true_eq]
      intro same
      exact before.2 (congrArg _ same.symm)
  | onTimer delays lags =>
      have dispatched := onTimer_dispatched consistent stable delays lags
      rcases Int.lt_or_le (timer.during delays lags).drained.clock.now entry.1 with later | due
      · exact (dispatched.untouched entry pending later).1
      · have ran : entry ∈ (timer.during delays lags).drained.tasks := by
          rw [dispatched.due.mem_iff, List.mem_filter]
          exact ⟨stable.mem_iff.mp pending, by simp [due, before.1]⟩
        have filtered : entry ∈ (timer.during delays lags).drained.tasks.filter
            fun other => other.2 = entry.2 := by
          rw [List.mem_filter]
          exact ⟨ran, by simp⟩
        rw [runTimesOf, List.map_eq_nil_iff] at notRun
        rw [notRun] at filtered
        cases filtered

theorem Spaced.step {maxLag : Nat} {timer next : Timer Event} {label : TimerLabel Event}
    {history : List (TimerLabel Event)} {event : Event} (ordered : Ordered history timer)
    (spaced : Spaced event history timer) (step : TimerStep maxLag timer label next) :
    Spaced event (history ++ [label]) next := by
  intro repeated
  rw [(step.event_eq ordered.consistent event).2.1] at repeated
  rcases spaced repeated with ⟨pairwise, pending⟩
  have static := step.event_eq ordered.consistent event
  rw [runTimes_concat, static.1]
  by_cases idle : runTimesOf event label = []
  · rw [idle, List.append_nil]
    refine ⟨pairwise, fun notCancled time member => ?_⟩
    have before := step.notCancled_before ordered.consistent notCancled
    rcases pending before.1 time member with ⟨key, entry, later⟩
    exact ⟨key, step.remains ordered.consistent ordered.stable entry idle notCancled, later⟩
  · cases step with
    | pass => exact absurd rfl idle
    | addTimerEvent => exact absurd rfl idle
    | deleteTimerEvent => exact absurd rfl idle
    | onTimer delays lags =>
        have dispatched := onTimer_dispatched ordered.consistent ordered.stable delays lags
        rcases dispatched.runTimesOf_eq idle with ⟨key, ran, single⟩
        have due := dispatched.due.mem_iff.mp ran
        simp only [List.mem_filter, Bool.and_eq_true, decide_eq_true_eq,
          Bool.not_eq_true'] at due
        have inside := ordered.stable.mem_iff.mpr due.1
        have earlier : ∀ time ∈ runTimes event history,
            time + (timer.events event).interval ≤ key := by
          intro time member
          rcases pending due.2.2 time member with ⟨other, entry, later⟩
          have sameKey := (ordered.consistent.keyed _ entry).trans
            (ordered.consistent.keyed _ inside).symm
          exact Int.le_trans later (Int.le_of_eq sameKey)
        rw [single]
        constructor
        · rw [List.pairwise_append]
          refine ⟨pairwise, List.pairwise_singleton _ _, fun time member now isNow => ?_⟩
          rw [List.mem_singleton.mp isNow]
          exact Int.le_trans (earlier time member) due.2.1
        · intro _ time member
          rcases dispatched.stays ordered.stable inside repeated due.2.2 with
            ⟨notDue, _⟩ | ⟨_, later, entry, spacing⟩
          · exact absurd due.2.1 (Int.not_le_of_gt notDue)
          · refine ⟨later, entry, ?_⟩
            rcases List.mem_append.mp member with member | member
            · have first := earlier time member
              have interval := ordered.intervals event
              omega
            · rw [List.mem_singleton.mp member]
              exact spacing

theorem TimerStep.pending_of_repeated {maxLag : Nat} {timer next : Timer Event}
    {label : TimerLabel Event} {queue : List (Int × Event)} {key : Int} {event : Event}
    (step : TimerStep maxLag timer label next) (consistent : timer.Consistent)
    (stable : StableSort queue timer.pendingEvents)
    (pending : (key, event) ∈ timer.pendingEvents)
    (repeated : (timer.events event).isRepeated = true)
    (notCancled : (next.events event).isCancled = false) :
    event ∈ next.pendingEvents.map Prod.snd := by
  by_cases idle : runTimesOf event label = []
  · have same := step.remains consistent stable pending idle notCancled
    exact List.mem_map_of_mem same
  · have before := step.notCancled_before consistent notCancled
    cases step with
    | pass => exact absurd rfl idle
    | addTimerEvent => exact absurd rfl idle
    | deleteTimerEvent => exact absurd rfl idle
    | onTimer delays lags =>
        have dispatched := onTimer_dispatched consistent stable delays lags
        rcases dispatched.stays stable pending repeated before.1 with
          ⟨_, same⟩ | ⟨_, later, entry, _⟩
        · exact List.mem_map_of_mem same
        · exact List.mem_map_of_mem entry

/-- A repeated event stays pending until it is deleted. -/
def Kept (event : Event) (history : List (TimerLabel Event)) (timer : Timer Event) : Prop :=
  (timer.events event).isRepeated = true → history.any (isAddition event) = true →
    .deleteTimerEvent event ∉ history → event ∈ timer.pendingEvents.map Prod.snd

theorem Kept.step {maxLag : Nat} {timer next : Timer Event} {label : TimerLabel Event}
    {history : List (TimerLabel Event)} {event : Event} (ordered : Ordered history timer)
    (kept : Kept event history timer) (step : TimerStep maxLag timer label next) :
    Kept event (history ++ [label]) next := by
  intro repeated added notDeleted
  rw [(step.event_eq ordered.consistent event).2.1] at repeated
  have notCancled : (next.events event).isCancled = false := by
    rw [← Bool.not_eq_true]
    exact mt ((ordered.step step).cancled event) notDeleted
  rw [List.mem_append, not_or, List.mem_singleton] at notDeleted
  rw [List.any_append, Bool.or_eq_true, List.any_cons, List.any_nil,
    Bool.or_false] at added
  rcases added with before | now
  · rcases List.mem_map.mp (kept repeated before notDeleted.1) with
      ⟨⟨key, _⟩, pending, rfl⟩
    exact step.pending_of_repeated ordered.consistent ordered.stable pending repeated notCancled
  · cases step with
    | pass => cases now
    | @addTimerEvent other =>
        rw [isAddition, decide_eq_true_eq] at now
        rw [Timer.addTimerEvent_pendingEvents, List.mem_map]
        exact ⟨_, mem_emplace.mpr (.inl rfl), now⟩
    | deleteTimerEvent => cases now
    | onTimer => cases now

/-! ### Every run -/

/-- What holds after a history. -/
structure Accounts (history : List (TimerLabel Event)) (timer : Timer Event) : Prop where
  ordered : Ordered history timer
  paid : ∀ event, Paid event history timer
  spaced : ∀ event, Spaced event history timer
  kept : ∀ event, Kept event history timer

theorem accounts_of_run {maxLag : Nat} {initial timer : Timer Event}
    {history : List (TimerLabel Event)} (started : initial.Initial)
    (run : (timerSystem Event maxLag).Run initial history timer) :
    Accounts history timer := by
  apply run.history Accounts
  · intro history current label next accounts step
    exact ⟨accounts.ordered.step step,
      fun event => (accounts.paid event).step accounts.ordered step,
      fun event => (accounts.spaced event).step accounts.ordered step,
      fun event => (accounts.kept event).step accounts.ordered step⟩
  · refine ⟨started.ordered, fun event _ => ?_, fun event _ => ?_, fun event _ added => ?_⟩
    · rw [Timer.entriesOf, started.empty]
      exact Nat.le_refl _
    · refine ⟨List.Pairwise.nil, fun _ time member => ?_⟩
      cases member
    · cases added

/-- Timer dispatch over whole runs: entries are keyed by arrival time, each
`onTimer` runs exactly what is due, a one-shot event runs at most as often as it
was added, and a repeated event stays pending and is run at most once in each of
its intervals. -/
theorem timer_dispatch {maxLag : Nat} {initial timer : Timer Event}
    {history : List (TimerLabel Event)} (started : initial.Initial)
    (run : (timerSystem Event maxLag).Run initial history timer) :
    (∀ entry ∈ timer.pendingEvents, entry.1 = (timer.events entry.2).arriveTime) ∧
      StableSort (queueOf history) timer.pendingEvents ∧
      (∀ now tasks readded next,
        TimerStep maxLag timer (.onTimer now tasks readded) next →
          Dispatched (queueOf history) timer now tasks readded next) ∧
      (∀ event, (timer.events event).isRepeated = false →
        (runTimes event history).length ≤ history.countP (isAddition event)) ∧
      ∀ event, (timer.events event).isRepeated = true →
        (runTimes event history).Pairwise (fun earlier later =>
            earlier + (timer.events event).interval ≤ later) ∧
          (history.any (isAddition event) = true → .deleteTimerEvent event ∉ history →
            timer.entriesOf event = 1) := by
  have accounts := accounts_of_run started run
  refine ⟨accounts.ordered.consistent.keyed, accounts.ordered.stable, ?_, ?_, ?_⟩
  · intro now tasks readded next step
    cases step with
    | onTimer delays lags =>
        exact onTimer_dispatched accounts.ordered.consistent accounts.ordered.stable delays lags
  · intro event oneShot
    exact Nat.le_trans (Nat.le_add_right _ _) (accounts.paid event oneShot)
  · intro event repeated
    refine ⟨(accounts.spaced event repeated).1, fun added notDeleted => ?_⟩
    exact List.count_eq_one_of_mem accounts.ordered.consistent.distinct
      (accounts.kept event repeated added notDeleted)

/-- A repeated event and a one-shot event that arrives before it. -/
def twoEvents : Timer Bool where
  clock := { now := 0, delays := [], lags := [] }
  timerfd := { deadline := none, armedAt := 0 }
  events := fun isRepeated =>
    { arriveTime := if isRepeated then 10 else 5
      interval := 10
      isRepeated := isRepeated
      isCancled := false }
  pendingEvents := []

theorem twoEvents_initial : twoEvents.Initial where
  empty := rfl
  intervals _ := by
    change (0 : Int) ≤ 10
    omega
  notCancled _ := rfl

def twoEventsPending : Timer Bool :=
  (((twoEvents.during [] []).addTimerEvent true).during [] []).addTimerEvent false

theorem twoEvents_run : (timerSystem Bool 0).Run twoEvents
    [.addTimerEvent 10 true, .addTimerEvent 5 false, .pass,
      .onTimer 12 [(5, false), (10, true)] [(22, true)]]
    ((twoEventsPending.pass 12).during [] []).onTimer := by
  have noLag : ∀ lag ∈ ([] : List Nat), lag ≤ 0 := by
    intro lag member
    cases member
  have addRepeated : TimerStep 0 twoEvents (.addTimerEvent 10 true)
      ((twoEvents.during [] []).addTimerEvent true) :=
    @TimerStep.addTimerEvent _ _ 0 twoEvents true [] [] noLag (by decide)
  have addOneShot : TimerStep 0 ((twoEvents.during [] []).addTimerEvent true)
      (.addTimerEvent 5 false) twoEventsPending :=
    @TimerStep.addTimerEvent _ _ 0 _ false [] [] noLag (by decide)
  have dispatch : TimerStep 0 (twoEventsPending.pass 12)
      (.onTimer 12 [(5, false), (10, true)] [(22, true)])
      ((twoEventsPending.pass 12).during [] []).onTimer :=
    .onTimer [] [] noLag
  exact .cons addRepeated (.cons addOneShot (.cons (.pass 12) (.cons dispatch (.nil _))))

theorem timer_dispatch_twoEvents :
    (((twoEventsPending.pass 12).during [] []).onTimer).entriesOf true = 1 :=
  ((timer_dispatch twoEvents_initial twoEvents_run).2.2.2.2 true rfl).2 rfl (by decide)

end NetRpc.EventLoop
