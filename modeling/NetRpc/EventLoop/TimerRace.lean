import NetRpc.EventLoop.TimerArming

/-! # Adding timers from several threads

`addTimerEvent` inserts under the lock, takes a snapshot under the lock, and
arms the timerfd for the first event of its snapshot without it. A call whose
snapshot has been overtaken can arm last, and then for an event that is not the
first any more.
-/

namespace NetRpc.EventLoop

open SortedMap

variable {Call : Type v} {Event : Type u}

/-- Where a call of `addTimerEvent` is. -/
inductive AddPoint (Event : Type u)
  | before
  /-- In front of `resetArriveTime`, with `is_reset_timerfd` set. -/
  | inserted
  /-- In front of `timerfd_settime`, with the first event of the snapshot. -/
  | snapshot (first : Event)
  | returned
deriving DecidableEq

structure TimerRace (Call : Type v) (Event : Type u) where
  timer : Timer Event
  calls : Call → AddPoint Event

inductive RaceEvent (Call : Type v) (Event : Type u)
  | insert (call : Call) (event : Event)
  | snapshot (call : Call)
  /-- `timerfd_settime` is called at the time `now`. -/
  | arm (call : Call) (now : Int)

def RaceEvent.isArm : RaceEvent Call Event → Bool
  | .arm _ _ => true
  | _ => false

namespace TimerRace

/-- The end of `resetArriveTime`, at one instant. -/
def arm (timer : Timer Event) (first : Event) (now : Int) : Timer Event :=
  let arriveTime := (timer.events first).arriveTime
  { timer with clock := { now, delays := [], lags := [] } }.setTimerfd
    (if arriveTime > now then arriveTime - now else 100)

/-- Without another thread in between, it is what `resetArriveTime` does. -/
theorem resetArriveTime_eq_arm {timer : Timer Event} {first : Int × Event}
    {rest : List (Int × Event)} (pending : timer.pendingEvents = first :: rest) (now : Int) :
    Timer.resetArriveTime { timer with clock := { now, delays := [], lags := [] } } =
      arm timer first.2 now := by
  simp [Timer.resetArriveTime, pending, arm, Timer.getNowMs, Clock.getNowMs]

variable [DecidableEq Call]

def moveTo (race : TimerRace Call Event) (call : Call) (point : AddPoint Event) :
    TimerRace Call Event :=
  { race with calls := Function.update race.calls call point }

/-- The three parts of a call. The event armed for is in the future. -/
def step (race : TimerRace Call Event) : RaceEvent Call Event → Option (TimerRace Call Event)
  | .insert call event =>
      match race.calls call with
      | .before =>
          let point := if race.timer.isResetTimerfd event then .inserted else .returned
          some { race.moveTo call point with timer := race.timer.emplace event }
      | _ => none
  | .snapshot call =>
      match race.calls call, race.timer.pendingEvents with
      | .inserted, [] => some (race.moveTo call .returned)
      | .inserted, first :: _ => some (race.moveTo call (.snapshot first.2))
      | _, _ => none
  | .arm call now =>
      match race.calls call with
      | .snapshot first =>
          if now < (race.timer.events first).arriveTime then
            some { race.moveTo call .returned with timer := arm race.timer first now }
          else none
      | _ => none

end TimerRace

/-- The timerfd is due when the earliest pending event arrives, or earlier. -/
def Timer.Due (timer : Timer Event) : Prop :=
  ∀ entry ∈ timer.pendingEvents, ∃ deadline,
    timer.timerfd.deadline = some deadline ∧ deadline ≤ entry.1

/-- A timer stays due with its deadline when nothing earlier is added. -/
theorem Timer.Due.of_bounds {timer next : Timer Event} (due : timer.Due)
    (sameTimerfd : next.timerfd = timer.timerfd)
    (bounded : ∀ bound, (∀ entry ∈ timer.pendingEvents, bound ≤ entry.1) →
      ∀ entry ∈ next.pendingEvents, bound ≤ entry.1) : next.Due := by
  intro entry member
  rw [sameTimerfd]
  cases armed : timer.timerfd.deadline with
  | some deadline =>
      refine ⟨deadline, rfl, bounded deadline ?_ entry member⟩
      intro other inside
      rcases due other inside with ⟨_, same, below⟩
      rw [armed] at same
      cases same
      exact below
  | none =>
      have none : ∀ other ∈ timer.pendingEvents, entry.1 + 1 ≤ other.1 := by
        intro other inside
        rcases due other inside with ⟨_, same, _⟩
        rw [armed] at same
        cases same
      have beyond := bounded (entry.1 + 1) none entry member
      omega

/-- Threads that each call `addTimerEvent` on one timer. -/
def timerRace (Call : Type v) (Event : Type u) [DecidableEq Call] :
    Transition.System (TimerRace Call Event) (RaceEvent Call Event) where
  Initial race :=
    (Sorted race.timer.pendingEvents ∧
      ∀ entry ∈ race.timer.pendingEvents, entry.1 = (race.timer.events entry.2).arriveTime) ∧
    race.timer.Due ∧ ∀ call, race.calls call = .before
  Step race event next := race.step event = some next

namespace TimerRace

variable [DecidableEq Call]

def AllReturned (race : TimerRace Call Event) : Prop :=
  ∀ call, race.calls call = .before ∨ race.calls call = .returned

/-- The snapshot of `call` begins with an event that is still the earliest. -/
def Fresh (race : TimerRace Call Event) (call : Call) : Prop :=
  ∀ first, race.calls call = .snapshot first →
    ∀ entry ∈ race.timer.pendingEvents, (race.timer.events first).arriveTime ≤ entry.1

/-- The last call that arms the timerfd does so from a fresh snapshot. -/
def LastArmsFresh (initial : TimerRace Call Event) (events : List (RaceEvent Call Event))
    (final : TimerRace Call Event) : Prop :=
  ∀ earlier call now later current, events = earlier ++ .arm call now :: later →
    (∀ event ∈ later, event.isArm = false) →
    (timerRace Call Event).Run initial earlier current →
    (timerRace Call Event).Run current (.arm call now :: later) final → current.Fresh call

/-! ## The steps -/

variable {race next initial final : TimerRace Call Event} {call : Call}

theorem step_insert {event : Event} (stepped : race.step (.insert call event) = some next) :
    race.calls call = .before ∧
      next = { race.moveTo call (if race.timer.isResetTimerfd event then .inserted else .returned)
        with timer := race.timer.emplace event } := by
  cases point : race.calls call with
  | before =>
      simp only [step, point, Option.some.injEq] at stepped
      exact ⟨rfl, stepped.symm⟩
  | _ =>
      simp only [step, point] at stepped
      cases stepped

theorem step_arm {now : Int} (stepped : race.step (.arm call now) = some next) :
    ∃ first, race.calls call = .snapshot first ∧ now < (race.timer.events first).arriveTime ∧
      next = { race.moveTo call .returned with timer := arm race.timer first now } := by
  cases point : race.calls call with
  | snapshot first =>
      simp only [step, point, Option.ite_none_right_eq_some] at stepped
      rcases stepped with ⟨future, ⟨⟩⟩
      exact ⟨first, rfl, future, rfl⟩
  | _ =>
      simp only [step, point] at stepped
      cases stepped

theorem arm_deadline {timer : Timer Event} {first : Event} {now : Int}
    (future : now < (timer.events first).arriveTime) :
    (arm timer first now).timerfd.deadline = some (timer.events first).arriveTime := by
  rw [arm, if_pos future, Timer.setTimerfd, Timerfd.settime_eq _ _ (Int.sub_pos.mpr future)]
  simp only [Clock.enterSettime, List.headD_nil, Option.some.injEq]
  omega

/-- Where a call stands after a step that moves `mover`. -/
theorem calls_moveTo (race : TimerRace Call Event) (mover call : Call) (point : AddPoint Event) :
    (race.moveTo mover point).calls call =
      if call = mover then point else race.calls call :=
  Function.update_apply _ _ _ _

/-- What holds of the timer throughout. -/
structure Keyed (race : TimerRace Call Event) : Prop where
  sorted : Sorted race.timer.pendingEvents
  keyed : ∀ entry ∈ race.timer.pendingEvents, entry.1 = (race.timer.events entry.2).arriveTime
  nonempty : ∀ call, race.calls call = .inserted → race.timer.pendingEvents ≠ []

theorem Keyed.step_snapshot (keyed : race.Keyed)
    (stepped : race.step (.snapshot call) = some next) :
    ∃ first rest, race.calls call = .inserted ∧ race.timer.pendingEvents = first :: rest ∧
      next = race.moveTo call (.snapshot first.2) := by
  cases point : race.calls call with
  | inserted =>
      cases pending : race.timer.pendingEvents with
      | nil => exact absurd pending (keyed.nonempty call point)
      | cons first rest =>
          simp only [TimerRace.step, point, pending, Option.some.injEq] at stepped
          exact ⟨first, rest, rfl, rfl, stepped.symm⟩
  | _ =>
      simp only [TimerRace.step, point] at stepped
      cases stepped

theorem emplace_ne_nil (timer : Timer Event) (event : Event) :
    (timer.emplace event).pendingEvents ≠ [] :=
  List.ne_nil_of_mem (mem_emplace.mpr (.inl rfl))

theorem Keyed.step {event : RaceEvent Call Event} (keyed : race.Keyed)
    (stepped : race.step event = some next) : next.Keyed := by
  cases event with
  | insert mover event =>
      rcases step_insert stepped with ⟨_, rfl⟩
      refine ⟨keyed.sorted.emplace, ?_, fun _ _ => emplace_ne_nil _ _⟩
      intro entry member
      rcases mem_emplace.mp member with rfl | member
      · rfl
      · exact keyed.keyed entry member
  | snapshot mover =>
      rcases keyed.step_snapshot stepped with ⟨first, rest, _, pending, rfl⟩
      refine ⟨keyed.sorted, keyed.keyed, fun _ _ => ?_⟩
      rw [moveTo, pending]
      exact List.cons_ne_nil _ _
  | arm mover now =>
      rcases step_arm stepped with ⟨first, point, _, rfl⟩
      refine ⟨keyed.sorted, keyed.keyed, fun call inserted => ?_⟩
      apply keyed.nonempty call
      rw [calls_moveTo] at inserted
      split at inserted
      · cases inserted
      · exact inserted

/-! ## Runs without an arming -/

/-- A call that is going to arm. -/
def Busy (point : AddPoint Event) : Prop :=
  point ≠ .before ∧ point ≠ .returned

/-- Only arming ends a call that is busy. -/
theorem Busy.step {event : RaceEvent Call Event} (busy : Busy (race.calls call))
    (keyed : race.Keyed) (stepped : race.step event = some next) (noArm : event.isArm = false) :
    Busy (next.calls call) := by
  cases event with
  | insert mover event =>
      rcases step_insert stepped with ⟨before, rfl⟩
      have other : call ≠ mover := by
        rintro rfl
        exact busy.1 before
      rw [calls_moveTo, if_neg other]
      exact busy
  | snapshot mover =>
      rcases keyed.step_snapshot stepped with ⟨first, rest, _, pending, rfl⟩
      rw [calls_moveTo]
      split
      · exact ⟨by simp, by simp⟩
      · exact busy
  | arm mover now => cases noArm

theorem Busy.run {events : List (RaceEvent Call Event)} (busy : Busy (race.calls call))
    (keyed : race.Keyed) (noArms : ∀ event ∈ events, event.isArm = false)
    (run : (timerRace Call Event).Run race events final) : Busy (final.calls call) := by
  induction run with
  | nil => exact busy
  | cons stepped _ induction =>
      rw [List.forall_mem_cons] at noArms
      exact induction (busy.step keyed stepped noArms.1) (keyed.step stepped) noArms.2

omit [DecidableEq Call] in
/-- An event that does not reset the timerfd is not earlier than the first. -/
theorem Keyed.first_le (keyed : race.Keyed) {event : Event}
    (notFirst : race.timer.isResetTimerfd event = false) :
    ∃ first ∈ race.timer.pendingEvents, first.1 ≤ (race.timer.events event).arriveTime := by
  cases pending : race.timer.pendingEvents with
  | nil => simp [Timer.isResetTimerfd, pending] at notFirst
  | cons first rest =>
      have inside : first ∈ race.timer.pendingEvents := by
        rw [pending]
        exact List.mem_cons_self
      simp only [Timer.isResetTimerfd, pending, ← keyed.keyed first inside, decide_eq_false_iff_not,
        Int.not_lt] at notFirst
      exact ⟨first, List.mem_cons_self, notFirst⟩

/-- Where nothing is armed and no call stays busy, all that has been added is
behind the first event, and the timerfd is as before. -/
theorem Keyed.quiet_step {event : RaceEvent Call Event} (keyed : race.Keyed)
    (stepped : race.step event = some next) (noArm : event.isArm = false)
    (idle : ∀ call, ¬Busy (next.calls call)) :
    next.timer.timerfd = race.timer.timerfd ∧ ∀ bound,
      (∀ entry ∈ next.timer.pendingEvents, bound ≤ entry.1) ↔
        ∀ entry ∈ race.timer.pendingEvents, bound ≤ entry.1 := by
  cases event with
  | insert mover event =>
      rcases step_insert stepped with ⟨_, rfl⟩
      refine ⟨rfl, fun bound => ?_⟩
      have notFirst : race.timer.isResetTimerfd event = false := by
        by_contra isFirst
        apply idle mover
        rw [calls_moveTo, if_pos rfl, if_pos (Bool.not_eq_false _ ▸ isFirst)]
        exact ⟨by simp, by simp⟩
      rcases keyed.first_le notFirst with ⟨first, inside, ordered⟩
      constructor
      · intro below entry member
        exact below entry (mem_emplace.mpr (.inr member))
      · intro below entry member
        rcases mem_emplace.mp member with rfl | member
        · exact Int.le_trans (below first inside) ordered
        · exact below entry member
  | snapshot mover =>
      rcases keyed.step_snapshot stepped with ⟨first, rest, _, _, rfl⟩
      exact ⟨rfl, fun _ => Iff.rfl⟩
  | arm mover now => cases noArm

theorem Keyed.quiet_run {events : List (RaceEvent Call Event)} (keyed : race.Keyed)
    (noArms : ∀ event ∈ events, event.isArm = false)
    (run : (timerRace Call Event).Run race events final) (returned : final.AllReturned) :
    final.timer.timerfd = race.timer.timerfd ∧ ∀ bound,
      (∀ entry ∈ final.timer.pendingEvents, bound ≤ entry.1) ↔
        ∀ entry ∈ race.timer.pendingEvents, bound ≤ entry.1 := by
  induction run with
  | nil => exact ⟨rfl, fun _ => Iff.rfl⟩
  | cons stepped rest induction =>
      rw [List.forall_mem_cons] at noArms
      have keyedNext := keyed.step stepped
      have idle : ∀ call, ¬Busy _ := fun call busy =>
        not_or.mpr (busy.run keyedNext noArms.2 rest) (returned call)
      have here := keyed.quiet_step stepped noArms.1 idle
      have later := induction keyedNext noArms.2 returned
      exact ⟨later.1.trans here.1, fun bound => (later.2 bound).trans (here.2 bound)⟩

/-! ## The last arming -/

omit [DecidableEq Call] in
theorem exists_last_arm (events : List (RaceEvent Call Event)) :
    (∀ event ∈ events, event.isArm = false) ∨
      ∃ earlier call now later, events = earlier ++ .arm call now :: later ∧
        ∀ event ∈ later, event.isArm = false := by
  induction events with
  | nil => exact .inl (by simp)
  | cons event events induction =>
      rcases induction with none | ⟨earlier, call, now, later, rfl, noArms⟩
      · cases event with
        | arm call now => exact .inr ⟨[], call, now, events, rfl, none⟩
        | _ =>
            left
            rw [List.forall_mem_cons]
            exact ⟨rfl, none⟩
      · exact .inr ⟨event :: earlier, call, now, later, rfl, noArms⟩

/-- Behind the last arming, the timerfd is due in time exactly if the snapshot
was fresh. -/
theorem Keyed.due_iff_fresh {call : Call} {now : Int} {later : List (RaceEvent Call Event)}
    (keyed : race.Keyed) (noArms : ∀ event ∈ later, event.isArm = false)
    (run : (timerRace Call Event).Run race (.arm call now :: later) final)
    (returned : final.AllReturned) : final.timer.Due ↔ race.Fresh call := by
  cases run with
  | cons stepped rest =>
      rcases step_arm stepped with ⟨first, point, future, rfl⟩
      have quiet := (keyed.step stepped).quiet_run noArms rest returned
      have deadline : final.timer.timerfd.deadline =
          some (race.timer.events first).arriveTime := by
        rw [quiet.1]
        exact arm_deadline future
      have due : final.timer.Due ↔
          ∀ entry ∈ final.timer.pendingEvents, (race.timer.events first).arriveTime ≤ entry.1 := by
        simp [Timer.Due, deadline]
      rw [due, quiet.2]
      constructor
      · intro below other snapshot
        rw [point] at snapshot
        cases snapshot
        exact below
      · intro fresh
        exact fresh first point

theorem Keyed.run {events : List (RaceEvent Call Event)} (keyed : race.Keyed)
    (run : (timerRace Call Event).Run race events final) : final.Keyed :=
  run.preserves Keyed (fun _ _ _ keyed stepped => keyed.step stepped) keyed

end TimerRace

/-- When all calls have returned, the timerfd is due in time exactly if the
call that armed it last took its snapshot when the earliest event was in. -/
theorem due_iff_lastArmsFresh [DecidableEq Call] {initial final : TimerRace Call Event}
    {events : List (RaceEvent Call Event)} (isInitial : (timerRace Call Event).Initial initial)
    (run : (timerRace Call Event).Run initial events final) (returned : final.AllReturned) :
    final.timer.Due ↔ TimerRace.LastArmsFresh initial events final := by
  rcases isInitial with ⟨⟨sorted, keyed⟩, due, before⟩
  have start : initial.Keyed := by
    refine ⟨sorted, keyed, fun call inserted => ?_⟩
    rw [before call] at inserted
    cases inserted
  constructor
  · rintro finallyDue earlier call now later current rfl noArms first rest
    exact ((start.run first).due_iff_fresh noArms rest returned).mp finallyDue
  · intro fresh
    rcases TimerRace.exists_last_arm events with noArms | ⟨earlier, call, now, later, rfl, noArms⟩
    · have quiet := start.quiet_run noArms run returned
      exact due.of_bounds quiet.1 fun bound => (quiet.2 bound).mpr
    · rcases run.split with ⟨current, first, rest⟩
      exact ((start.run first).due_iff_fresh noArms rest returned).mpr
        (fresh earlier call now later current rfl noArms first rest)

/-- An empty timer and two events, of which `false` arrives first. -/
def twoThreads : TimerRace Bool Bool where
  timer :=
    { clock := { now := 0, delays := [], lags := [] }
      timerfd := { deadline := none, armedAt := 0 }
      events late :=
        { arriveTime := if late then 30000 else 50, interval := 0, isRepeated := false,
          isCancled := false }
      pendingEvents := [] }
  calls _ := .before

theorem twoThreads_initial : (timerRace Bool Bool).Initial twoThreads := by
  refine ⟨⟨List.Pairwise.nil, ?_⟩, ?_, fun _ => rfl⟩
  · intro entry none
    cases none
  · intro entry none
    cases none

/-- What there is to see of a race. -/
def TimerRace.observe (race : TimerRace Bool Bool) :
    (AddPoint Bool × AddPoint Bool) × Option Int × List (Int × Bool) :=
  ((race.calls true, race.calls false), race.timer.timerfd.deadline, race.timer.pendingEvents)

theorem TimerRace.run_of_observed {events : List (RaceEvent Bool Bool)}
    {observed : (AddPoint Bool × AddPoint Bool) × Option Int × List (Int × Bool)}
    (computed : (events.foldlM TimerRace.step twoThreads).map TimerRace.observe = some observed) :
    ∃ final, (timerRace Bool Bool).Run twoThreads events final ∧ final.observe = observed :=
  Transition.System.Run.of_observed (fun _ _ _ stepped => stepped) computed

theorem TimerRace.allReturned_of_observe {race : TimerRace Bool Bool} {deadline : Option Int}
    {pending : List (Int × Bool)}
    (observed : race.observe = ((.returned, .returned), deadline, pending)) :
    race.AllReturned := by
  have calls := (Prod.mk.inj observed).1
  intro call
  right
  cases call with
  | true => exact (Prod.mk.inj calls).1
  | false => exact (Prod.mk.inj calls).2

/-- The second call starts when the first has returned. -/
def inTurn : List (RaceEvent Bool Bool) :=
  [.insert true true, .snapshot true, .arm true 0, .insert false false, .snapshot false,
    .arm false 0]

theorem due_iff_lastArmsFresh_inTurn :
    ∃ final, (timerRace Bool Bool).Run twoThreads inTurn final ∧
      (final.timer.Due ↔ TimerRace.LastArmsFresh twoThreads inTurn final) := by
  have computed : (inTurn.foldlM TimerRace.step twoThreads).map TimerRace.observe =
      some ((.returned, .returned), some 50, [(50, false), (30000, true)]) := by
    decide +kernel
  rcases TimerRace.run_of_observed computed with ⟨final, run, observed⟩
  exact ⟨final, run, due_iff_lastArmsFresh twoThreads_initial run
    (TimerRace.allReturned_of_observe observed)⟩

/-- The first call is overtaken between its snapshot and its arming. -/
def overtaken : List (RaceEvent Bool Bool) :=
  [.insert true true, .snapshot true, .insert false false, .snapshot false, .arm false 0,
    .arm true 0]

/-- The event at 50 is pending, and the timerfd is due at 30000. -/
theorem not_due_overtaken :
    ∃ final, (timerRace Bool Bool).Run twoThreads overtaken final ∧ final.AllReturned ∧
      final.timer.timerfd.deadline = some 30000 ∧ (50, false) ∈ final.timer.pendingEvents ∧
      ¬final.timer.Due := by
  have computed : (overtaken.foldlM TimerRace.step twoThreads).map TimerRace.observe =
      some ((.returned, .returned), some 30000, [(50, false), (30000, true)]) := by
    decide +kernel
  rcases TimerRace.run_of_observed computed with ⟨final, run, observed⟩
  have seen := Prod.mk.inj (Prod.mk.inj observed).2
  have pending : (50, false) ∈ final.timer.pendingEvents := by
    rw [seen.2]
    exact List.mem_cons_self
  refine ⟨final, run, TimerRace.allReturned_of_observe observed, seen.1, pending, ?_⟩
  intro due
  rcases due _ pending with ⟨deadline, armed, below⟩
  rw [seen.1] at armed
  cases armed
  exact absurd below (by decide)

end NetRpc.EventLoop
