import NetRpc.Foundation.Transition

/-! # Driving the event loop again

`m_quit` and `m_is_looping` are set and never reset: `loop` returns with
`m_is_looping` still true, and once `m_quit` is true no loop goes on. So a
connect on a loop that has been stopped waits for nothing.
-/

namespace NetRpc.EventLoop

/-- Where the one thread is. -/
inductive DrivePoint
  /-- `loop` is not being executed. -/
  | outside
  /-- At the condition of `while (!m_quit)`. -/
  | head
  /-- Inside an iteration, in which tasks and callbacks are run. -/
  | body
deriving DecidableEq

structure DriveState where
  quit : Bool := false
  isLooping : Bool := false
  point : DrivePoint := .outside
  /-- The clients whose `done` callback waits for the socket to become writable. -/
  awaiting : List Nat := []
deriving DecidableEq

inductive DriveEvent
  /-- `TcpClient::connect`, where `::connect` is in progress. -/
  | connect (client : Nat)
  /-- The condition of the loop is evaluated. -/
  | check
  /-- The socket of the client has become writable, and its callback is run. -/
  | done (client : Nat)
  /-- An iteration ends. -/
  | iterate
  /-- `TcpClient::stop` -/
  | clientStop
  /-- `EventLoop::stop` -/
  | stop
deriving DecidableEq

def DriveEvent.isStop : DriveEvent → Bool
  | .clientStop | .stop => true
  | _ => false

namespace DriveState

/-- `EventLoop::loop` is entered. -/
def enterLoop (state : DriveState) : DriveState :=
  { state with isLooping := true, point := .head }

def stop (state : DriveState) : DriveState :=
  { state with quit := true }

/-- Calls come from outside the loop or from callbacks that it runs. -/
def step (state : DriveState) : DriveEvent → Option DriveState
  | .connect client =>
      let registered := { state with awaiting := client :: state.awaiting }
      if state.point = .head then none
      else if state.isLooping then some registered
      else some registered.enterLoop
  | .check =>
      if state.point ≠ .head then none
      else some { state with point := if state.quit then .outside else .body }
  | .done client =>
      if state.point = .body ∧ client ∈ state.awaiting then
        some { state with awaiting := state.awaiting.erase client }
      else none
  | .iterate => if state.point = .body then some { state with point := .head } else none
  | .clientStop =>
      if state.point = .head then none
      else if state.isLooping then some state.stop
      else some state
  | .stop => if state.point = .head then none else some state.stop

end DriveState

/-- One thread that connects, loops and stops. -/
def driving : Transition.System DriveState DriveEvent where
  Initial state := state = {}
  Step state event next := state.step event = some next

namespace DriveState

def Executing (state : DriveState) : Prop :=
  state.point ≠ .outside

/-- The loop goes on until the next stop, and `done` can run in it. -/
structure Processes (state : DriveState) (client : Nat) : Prop where
  goesOn : ∀ events final, (∀ event ∈ events, event.isStop = false) →
    driving.Run state events final → final.Executing
  canRun : ∃ events final, (∀ event ∈ events, event.isStop = false) ∧
    driving.Run state events final ∧ .done client ∈ events

/-- The flag tells whether `loop` is being executed, and a connect outside of
it enters a loop that goes on. -/
structure DrivesAgain (current : DriveState) (event : DriveEvent) (next : DriveState) :
    Prop where
  looping_iff : next.isLooping = true ↔ next.Executing
  enters : ∀ client, event = .connect client → ¬current.Executing → next.Processes client

/-- `m_quit` is not set where the loop looks at it, nor where a connect is going
to enter a loop. -/
def FindsNoQuit (state : DriveState) : DriveEvent → Prop
  | .check => state.quit = false
  | .connect _ => state.Executing ∨ state.quit = false
  | _ => True

/-- The flag is right. -/
def Truthful (state : DriveState) : Prop :=
  state.isLooping = true ↔ state.Executing

end DriveState

namespace DriveState

variable {state next : DriveState} {event : DriveEvent}

/-- A loop that has not been told to quit. -/
structure Ready (state : DriveState) : Prop where
  executing : state.Executing
  noQuit : state.quit = false

theorem Ready.step (ready : state.Ready) (stepped : state.step event = some next)
    (noStop : event.isStop = false) : next.Ready := by
  rcases ready with ⟨executing, noQuit⟩
  cases event with
  | connect client =>
      simp only [DriveState.step] at stepped
      split at stepped
      · cases stepped
      · split at stepped
        · cases stepped
          exact ⟨executing, noQuit⟩
        · cases stepped
          exact ⟨DrivePoint.noConfusion, noQuit⟩
  | check =>
      simp only [DriveState.step, noQuit] at stepped
      split at stepped
      · cases stepped
      · cases stepped
        exact ⟨DrivePoint.noConfusion, rfl⟩
  | done client =>
      simp only [DriveState.step, Option.ite_none_right_eq_some] at stepped
      rcases stepped with ⟨_, ⟨⟩⟩
      exact ⟨executing, noQuit⟩
  | iterate =>
      simp only [DriveState.step, Option.ite_none_right_eq_some] at stepped
      rcases stepped with ⟨_, ⟨⟩⟩
      exact ⟨DrivePoint.noConfusion, noQuit⟩
  | clientStop => cases noStop
  | stop => cases noStop

theorem Ready.run (ready : state.Ready) {events : List DriveEvent}
    (noStops : ∀ event ∈ events, event.isStop = false)
    (run : driving.Run state events next) : next.Ready := by
  induction run with
  | nil => exact ready
  | cons step _ induction =>
      rw [List.forall_mem_cons] at noStops
      exact induction (ready.step step noStops.1) noStops.2

/-- What is waited for in front of the loop can happen in its first iteration. -/
theorem Ready.processes (ready : state.Ready) (atHead : state.point = .head) {client : Nat}
    (awaited : client ∈ state.awaiting) : state.Processes client where
  goesOn events final noStops run := (ready.run noStops run).executing
  canRun := by
    refine ⟨[.check, .done client],
      { state with point := .body, awaiting := state.awaiting.erase client }, ?_, ?_, ?_⟩
    · simp [DriveEvent.isStop]
    · have checked : state.step .check = some { state with point := .body } := by
        simp [DriveState.step, atHead, ready.noQuit]
      have served : DriveState.step { state with point := .body } (.done client) =
          some { state with point := .body, awaiting := state.awaiting.erase client } :=
        if_pos ⟨rfl, awaited⟩
      exact .cons checked (.cons served (.nil _))
    · simp

theorem not_processes_of_quit (atHead : state.point = .head) (quit : state.quit = true)
    (client : Nat) : ¬state.Processes client := by
  intro processes
  have left : driving.Run state [.check] { state with point := .outside } := by
    apply Transition.System.Run.cons _ (.nil _)
    simp [driving, DriveState.step, atHead, quit]
  exact processes.goesOn [.check] _ (by simp [DriveEvent.isStop]) left rfl

/-- A step that does not connect, and that leaves the loop where it is. -/
theorem DrivesAgain.of_same (truthful : state.Truthful)
    (sameLooping : next.isLooping = state.isLooping)
    (sameExecuting : next.Executing ↔ state.Executing)
    (noConnect : ∀ client, event ≠ .connect client) : DrivesAgain state event next where
  looping_iff := by
    rw [sameLooping, sameExecuting]
    exact truthful
  enters client isConnect := absurd isConnect (noConnect client)

theorem drivesAgain_connect_iff {client : Nat} (truthful : state.Truthful)
    (stepped : state.step (.connect client) = some next) :
    DrivesAgain state (.connect client) next ↔ state.FindsNoQuit (.connect client) := by
  simp only [DriveState.step] at stepped
  split at stepped
  · cases stepped
  · split at stepped
    case isTrue looping =>
      cases stepped
      have executing : state.Executing := truthful.mp looping
      refine iff_of_true ⟨truthful, ?_⟩ (.inl executing)
      intro _ _ outside
      exact absurd executing outside
    case isFalse notLooping =>
      have outside : ¬state.Executing := fun executing => notLooping (truthful.mpr executing)
      rw [FindsNoQuit, or_iff_right outside]
      generalize entered : enterLoop { state with awaiting := client :: state.awaiting } = loop
        at stepped
      have atHead : loop.point = .head := by rw [← entered]; rfl
      have quit : loop.quit = state.quit := by rw [← entered]; rfl
      have looping : loop.isLooping = true := by rw [← entered]; rfl
      have awaited : client ∈ loop.awaiting := by rw [← entered]; exact List.mem_cons_self
      have executing : loop.Executing := by
        rw [Executing, atHead]
        exact DrivePoint.noConfusion
      cases stepped
      rw [← quit]
      constructor
      · intro drives
        by_contra isQuit
        exact not_processes_of_quit atHead (Bool.not_eq_false _ ▸ isQuit) client
          (drives.enters client rfl outside)
      · intro noQuit
        refine ⟨iff_of_true looping executing, ?_⟩
        rintro _ ⟨⟩ _
        exact Ready.processes ⟨executing, noQuit⟩ atHead awaited

theorem drivesAgain_check_iff (truthful : state.Truthful)
    (stepped : state.step .check = some next) :
    DrivesAgain state .check next ↔ state.FindsNoQuit .check := by
  simp only [DriveState.step] at stepped
  split at stepped
  · cases stepped
  · next atHead =>
      cases stepped
      have executing : state.Executing := by
        rw [Executing, not_not.mp atHead]
        exact DrivePoint.noConfusion
      rw [FindsNoQuit]
      cases quit : state.quit with
      | false =>
          refine iff_of_true ⟨?_, ?_⟩ rfl
          · exact iff_of_true (truthful.mpr executing) DrivePoint.noConfusion
          · intro _ impossible
            cases impossible
      | true =>
          refine iff_of_false ?_ Bool.noConfusion
          intro drives
          exact drives.looping_iff.mp (truthful.mpr executing) rfl

theorem drivesAgain_iff (truthful : state.Truthful) (stepped : state.step event = some next) :
    DrivesAgain state event next ↔ state.FindsNoQuit event := by
  cases event with
  | connect client => exact drivesAgain_connect_iff truthful stepped
  | check => exact drivesAgain_check_iff truthful stepped
  | done client =>
      simp only [DriveState.step, Option.ite_none_right_eq_some] at stepped
      rcases stepped with ⟨_, ⟨⟩⟩
      exact iff_of_true (.of_same truthful rfl Iff.rfl (by simp)) trivial
  | iterate =>
      simp only [DriveState.step, Option.ite_none_right_eq_some] at stepped
      rcases stepped with ⟨inBody, ⟨⟩⟩
      have executing : state.Executing := by
        rw [Executing, inBody]
        exact DrivePoint.noConfusion
      have same : Executing { state with point := .head } ↔ state.Executing :=
        iff_of_true DrivePoint.noConfusion executing
      exact iff_of_true (.of_same truthful rfl same (by simp)) trivial
  | clientStop =>
      simp only [DriveState.step] at stepped
      split at stepped
      · cases stepped
      · split at stepped
        · cases stepped
          exact iff_of_true (.of_same truthful rfl Iff.rfl (by simp)) trivial
        · cases stepped
          exact iff_of_true (.of_same truthful rfl Iff.rfl (by simp)) trivial
  | stop =>
      simp only [DriveState.step] at stepped
      split at stepped
      · cases stepped
      · cases stepped
        exact iff_of_true (.of_same truthful rfl Iff.rfl (by simp)) trivial

end DriveState

/-- The flag is right and every connect outside of a loop enters one that goes
on, exactly as long as neither the loop nor such a connect finds `m_quit` set. -/
theorem drivesAgain_run_iff (events : List DriveEvent) :
    driving.EachStep DriveState.DrivesAgain {} events ↔
      driving.EachStep (fun current event _ => current.FindsNoQuit event) {} events := by
  have preserved : ∀ current event next, current.Truthful → driving.Step current event next →
      current.FindsNoQuit event → next.Truthful := by
    intro current event next truthful stepped met
    exact ((DriveState.drivesAgain_iff truthful stepped).mpr met).looping_iff
  apply Transition.System.eachStep_iff preserved
  · intro current event next truthful stepped
    exact DriveState.drivesAgain_iff truthful stepped
  · exact iff_of_false Bool.noConfusion fun executing => executing rfl

/-- A client connects and stops its loop. The second client is left alone. -/
def reconnectEvents : List DriveEvent :=
  [.connect 0, .check, .done 0, .clientStop, .iterate, .check, .connect 1]

/-- The state that the second client is left in. -/
def leftAlone : DriveState :=
  { quit := true, isLooping := true, point := .outside, awaiting := [1] }

theorem reconnect_not_driven :
    driving.Run {} reconnectEvents leftAlone ∧ leftAlone.isLooping = true ∧
      ¬leftAlone.Executing ∧ ¬leftAlone.Processes 1 ∧
      ¬driving.EachStep DriveState.DrivesAgain {} reconnectEvents := by
  have ran : ∀ events final, events.foldlM DriveState.step {} = some final →
      driving.Run {} events final :=
    fun _ _ => Transition.System.Run.of_foldlM fun _ _ _ stepped => stepped
  refine ⟨ran _ _ (by decide), rfl, fun executing => executing rfl, ?_, ?_⟩
  · intro processes
    exact processes.goesOn [] leftAlone (by simp) (.nil _) rfl
  · intro each
    have left := each [.connect 0, .check, .done 0, .clientStop, .iterate]
      { quit := true, isLooping := true, point := .head } .check
      { quit := true, isLooping := true, point := .outside } (by decide)
      (ran _ _ (by decide)) rfl
    exact left.looping_iff.mp rfl rfl

end NetRpc.EventLoop
