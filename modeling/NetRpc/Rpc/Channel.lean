import NetRpc.Rpc.Controller
import NetRpc.Coder.Protocol

/-! # The end of an RPC call

A failed connect, the response and the timer each report to the controller and
then go through `callBack`, which runs the closure unless the controller is
already finished.
-/

namespace NetRpc.RpcChannel

variable {Response : Type}

/-- What running `m_closure` does to the controller and to the response object. -/
abbrev Closure (Response : Type) :=
  RpcController → Response → RpcController × Response

/-- A call under way. -/
structure ActiveCall (Response : Type) where
  controller : RpcController
  response : Response
  /-- The controller as each run of the closure has found it. -/
  completions : List RpcController

namespace ActiveCall

def start (controller : RpcController) (response : Response) : ActiveCall Response where
  controller := controller
  response := response
  completions := []

def setError (call : ActiveCall Response) (errorCode : Int32) (errorInfo : Bytes) :
    ActiveCall Response :=
  { call with controller := call.controller.setError errorCode errorInfo }

end ActiveCall

def callBack (closure : Option (Closure Response)) (call : ActiveCall Response) :
    ActiveCall Response :=
  if call.controller.isFinished then
    call
  else
    match closure with
    | none => call
    | some run =>
        let (controller, response) := run call.controller call.response
        { controller := controller.setFinished true
          response
          completions := call.completions ++ [call.controller] }

/-- The events that can end a call. -/
inductive CallEvent
  | connectFails (errorCode : Int32) (errorInfo : Bytes)
  | responds (rspProtocol : TinyPBProtocol)
  | timeoutArrives
deriving DecidableEq

section Events

variable (closure : Option (Closure Response)) (parseFromString : Bytes → Response × Bool)

def onConnectError (call : ActiveCall Response) (errorCode : Int32) (errorInfo : Bytes) :
    ActiveCall Response :=
  callBack closure (call.setError errorCode errorInfo)

def onResponse (call : ActiveCall Response) (rspProtocol : TinyPBProtocol) :
    ActiveCall Response :=
  let (response, parsed) := parseFromString rspProtocol.pbData
  let call := { call with response }
  if !parsed then
    callBack closure (call.setError errorFailedSerialize (ascii "serialize error"))
  else if rspProtocol.errCode ≠ 0 then
    callBack closure (call.setError rspProtocol.errCode rspProtocol.errInfo)
  else
    callBack closure call

def onTimeout (call : ActiveCall Response) : ActiveCall Response :=
  if call.controller.isFinished then
    call
  else
    let info := ascii "rpc call timeout " ++ ascii (toString call.controller.timeout)
    callBack closure
      { call with
        controller := call.controller.startCancel.setError errorRpcCallTimeout info }

def handle (call : ActiveCall Response) : CallEvent → ActiveCall Response
  | .connectFails errorCode errorInfo => onConnectError closure call errorCode errorInfo
  | .responds rspProtocol => onResponse closure parseFromString call rspProtocol
  | .timeoutArrives => onTimeout closure call

def handleAll (call : ActiveCall Response) (events : List CallEvent) :
    ActiveCall Response :=
  events.foldl (handle closure parseFromString) call

theorem handleAll_append (call : ActiveCall Response) (handled later : List CallEvent) :
    handleAll closure parseFromString call (handled ++ later) =
      handleAll closure parseFromString (handleAll closure parseFromString call handled) later :=
  List.foldl_append

/-- Once an event has been handled the closure has been run, and from then on it
stays at that one run. -/
def CompletesOnce (call : ActiveCall Response) (events : List CallEvent) : Prop :=
  ∀ handled, handled ≠ [] → handled <+: events →
    (handleAll closure parseFromString call handled).completions.length = 1

end Events

/-! ## Single events -/

section Steps

variable (closure : Option (Closure Response)) (parseFromString : Bytes → Response × Bool)

theorem callBack_finished (call : ActiveCall Response)
    (finished : call.controller.isFinished = true) :
    callBack closure call = call := by
  exact if_pos finished

theorem callBack_unfinished (run : Closure Response) (call : ActiveCall Response)
    (unfinished : call.controller.isFinished = false) :
    (callBack (some run) call).controller.isFinished = true ∧
      (callBack (some run) call).completions = call.completions ++ [call.controller] := by
  rw [callBack, if_neg (by simp [unfinished])]
  exact ⟨rfl, rfl⟩

/-- Every event but the timeout only reports to the controller, which does not
finish it, before it goes through `callBack`. -/
theorem handle_eq_callBack (call : ActiveCall Response) (event : CallEvent)
    (untimed : event ≠ .timeoutArrives) :
    ∃ reported : ActiveCall Response,
      handle closure parseFromString call event = callBack closure reported ∧
        reported.controller.isFinished = call.controller.isFinished ∧
          reported.completions = call.completions := by
  cases event with
  | connectFails errorCode errorInfo => exact ⟨_, rfl, rfl, rfl⟩
  | responds rspProtocol =>
      simp only [handle, onResponse]
      split
      · exact ⟨_, rfl, rfl, rfl⟩
      · split
        · exact ⟨_, rfl, rfl, rfl⟩
        · exact ⟨_, rfl, rfl, rfl⟩
  | timeoutArrives => exact absurd rfl untimed

/-- `StartCancel` finishes the controller before `callBack` looks at it. -/
theorem onTimeout_effect (call : ActiveCall Response) :
    (onTimeout closure call).controller.isFinished = true ∧
      (onTimeout closure call).completions = call.completions := by
  rw [onTimeout]
  split
  · rename_i finished
    exact ⟨finished, rfl⟩
  · rw [callBack_finished closure _ rfl]
    exact ⟨rfl, rfl⟩

/-- A finished call stays finished and its closure is not run. -/
theorem handle_finished (call : ActiveCall Response) (event : CallEvent)
    (finished : call.controller.isFinished = true) :
    (handle closure parseFromString call event).controller.isFinished = true ∧
      (handle closure parseFromString call event).completions = call.completions := by
  by_cases untimed : event ≠ .timeoutArrives
  · rcases handle_eq_callBack closure parseFromString call event untimed with
      ⟨reported, equal, sameFlag, sameRuns⟩
    have stillFinished := sameFlag.trans finished
    rw [equal, callBack_finished closure reported stillFinished]
    exact ⟨stillFinished, sameRuns⟩
  · have timed : event = .timeoutArrives := not_not.mp untimed
    subst timed
    exact onTimeout_effect closure call

theorem handle_unfinished (run : Closure Response) (call : ActiveCall Response)
    (event : CallEvent) (unfinished : call.controller.isFinished = false)
    (untimed : event ≠ .timeoutArrives) :
    (handle (some run) parseFromString call event).controller.isFinished = true ∧
      ∃ controller, (handle (some run) parseFromString call event).completions =
        call.completions ++ [controller] := by
  rcases handle_eq_callBack (some run) parseFromString call event untimed with
    ⟨reported, equal, sameFlag, sameRuns⟩
  have completed := callBack_unfinished run reported (sameFlag.trans unfinished)
  rw [equal, ← sameRuns]
  exact ⟨completed.1, reported.controller, completed.2⟩

end Steps

/-! ## Sequences of events -/

theorem handleAll_finished (closure : Option (Closure Response))
    (parseFromString : Bytes → Response × Bool) (call : ActiveCall Response)
    (events : List CallEvent) (finished : call.controller.isFinished = true) :
    (handleAll closure parseFromString call events).completions = call.completions := by
  induction events generalizing call with
  | nil => rfl
  | cons event later induction =>
      have step := handle_finished closure parseFromString call event finished
      exact (induction _ step.1).trans step.2

theorem completes_once_iff (run : Closure Response)
    (parseFromString : Bytes → Response × Bool) (controller : RpcController)
    (response : Response) (first : CallEvent) (later : List CallEvent) :
    CompletesOnce (some run) parseFromString (.start controller response)
        (first :: later) ↔
      controller.isFinished = false ∧ first ≠ .timeoutArrives := by
  constructor
  · intro once
    have afterFirst := once [first] (by simp) (by simp)
    constructor
    · cases finished : controller.isFinished with
      | false => rfl
      | true =>
          have kept := handleAll_finished (some run) parseFromString
            (.start controller response) [first] finished
          rw [kept] at afterFirst
          simp [ActiveCall.start] at afterFirst
    · intro timed
      subst timed
      have kept := (onTimeout_effect (some run) (.start controller response)).2
      change (onTimeout (some run) (.start controller response)).completions.length = 1
        at afterFirst
      rw [kept] at afterFirst
      simp [ActiveCall.start] at afterFirst
  · rintro ⟨unfinished, untimed⟩ handled nonempty isPrefix
    cases handled with
    | nil => exact absurd rfl nonempty
    | cons event rest =>
        have same : event = first := (List.cons_prefix_cons.mp isPrefix).1
        subst same
        rcases handle_unfinished parseFromString run (.start controller response) event
          unfinished untimed with ⟨finished, found, completed⟩
        have kept := handleAll_finished (some run) parseFromString _ rest finished
        change (handleAll (some run) parseFromString _ rest).completions.length = 1
        rw [kept, completed]
        rfl

/-- The timeout arrives first and the closure is never run. -/
theorem timeout_not_completed :
    ¬CompletesOnce (some fun controller response => (controller, response))
      (fun _ => ((), true)) (.start {} ()) [.timeoutArrives] := by
  intro once
  have ran := once [.timeoutArrives] (by simp) (by simp)
  revert ran
  decide +kernel

end NetRpc.RpcChannel
