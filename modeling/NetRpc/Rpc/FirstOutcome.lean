import NetRpc.Rpc.Channel
import Mathlib.Data.List.Induction

/-! # The outcome of a finished call

Only the timer looks at the finished flag before it reports. A late connect
error and a late response are written into the controller and the response
object first, and `callBack` then does nothing.
-/

namespace NetRpc.RpcChannel

variable {Response : Type}

/-- What the caller learns from a call. -/
structure Outcome (Response : Type) where
  errorCode : Int32
  errorInfo : Bytes
  isFailed : Bool
  response : Response
deriving DecidableEq

namespace ActiveCall

def outcome (call : ActiveCall Response) : Outcome Response where
  errorCode := call.controller.errorCode
  errorInfo := call.controller.errorInfo
  isFailed := call.controller.isFailed
  response := call.response

/-- `SetError` with these arguments has no effect. -/
def HasError (call : ActiveCall Response) (errorCode : Int32) (errorInfo : Bytes) : Prop :=
  call.controller.errorCode = errorCode ∧ call.controller.errorInfo = errorInfo ∧
    call.controller.isFailed = true

theorem outcome_setError_iff (call : ActiveCall Response) (response : Response)
    (errorCode : Int32) (errorInfo : Bytes) :
    ({ call with response }.setError errorCode errorInfo).outcome = call.outcome ↔
      response = call.response ∧ call.HasError errorCode errorInfo := by
  simp only [outcome, setError, RpcController.setError, Outcome.mk.injEq, HasError]
  constructor
  · rintro ⟨sameCode, sameInfo, sameFlag, sameResponse⟩
    exact ⟨sameResponse, sameCode.symm, sameInfo.symm, sameFlag.symm⟩
  · rintro ⟨sameResponse, sameCode, sameInfo, sameFlag⟩
    exact ⟨sameCode.symm, sameInfo.symm, sameFlag.symm, sameResponse⟩

end ActiveCall

variable (closure : Option (Closure Response)) (parseFromString : Bytes → Response × Bool)

/-- The error that a response leads to. -/
def responseError (rspProtocol : TinyPBProtocol) : Option (Int32 × Bytes) :=
  if !(parseFromString rspProtocol.pbData).2 then
    some (errorFailedSerialize, ascii "serialize error")
  else if rspProtocol.errCode ≠ 0 then some (rspProtocol.errCode, rspProtocol.errInfo)
  else none

/-- The event brings nothing that the call does not hold already. -/
def Repeats (call : ActiveCall Response) : CallEvent → Prop
  | .timeoutArrives => True
  | .connectFails errorCode errorInfo => call.HasError errorCode errorInfo
  | .responds rspProtocol =>
      (parseFromString rspProtocol.pbData).1 = call.response ∧
        ∀ error, responseError parseFromString rspProtocol = some error →
          call.HasError error.1 error.2

/-- Whatever has finished the call, its outcome stays. -/
def OutcomeFinal (call : ActiveCall Response) (events : List CallEvent) : Prop :=
  ∀ handled seen, handled <+: seen → seen <+: events →
    (handleAll closure parseFromString call handled).controller.isFinished = true →
      (handleAll closure parseFromString call seen).outcome =
        (handleAll closure parseFromString call handled).outcome

theorem onResponse_finished (call : ActiveCall Response) (rspProtocol : TinyPBProtocol)
    (finished : call.controller.isFinished = true) :
    onResponse closure parseFromString call rspProtocol =
      match responseError parseFromString rspProtocol with
      | some error =>
          { call with response := (parseFromString rspProtocol.pbData).1 }.setError
            error.1 error.2
      | none => { call with response := (parseFromString rspProtocol.pbData).1 } := by
  have unchanged : ∀ reported : ActiveCall Response,
      reported.controller.isFinished = call.controller.isFinished →
        callBack closure reported = reported :=
    fun reported same => callBack_finished closure reported (same.trans finished)
  simp only [onResponse, responseError]
  split
  · exact unchanged _ rfl
  · split
    · exact unchanged _ rfl
    · exact unchanged _ rfl

/-- A late event keeps the outcome exactly where it repeats it. -/
theorem outcome_handle_iff (call : ActiveCall Response) (event : CallEvent)
    (finished : call.controller.isFinished = true) :
    (handle closure parseFromString call event).outcome = call.outcome ↔
      Repeats parseFromString call event := by
  cases event with
  | connectFails errorCode errorInfo =>
      have late := callBack_finished closure (call.setError errorCode errorInfo) finished
      rw [handle, onConnectError, late]
      have same := call.outcome_setError_iff call.response errorCode errorInfo
      exact same.trans (and_iff_right rfl)
  | timeoutArrives =>
      rw [handle, onTimeout, if_pos finished]
      exact iff_of_true rfl trivial
  | responds rspProtocol =>
      rw [handle, onResponse_finished closure parseFromString call rspProtocol finished, Repeats]
      cases responseError parseFromString rspProtocol with
      | none =>
          simp only [ActiveCall.outcome, Outcome.mk.injEq, true_and]
          exact ⟨fun same => ⟨same, by rintro error ⟨⟩⟩, fun same => same.1⟩
      | some error =>
          refine (call.outcome_setError_iff _ error.1 error.2).trans (and_congr_right fun _ => ?_)
          exact ⟨fun hasError => by rintro _ ⟨⟩; exact hasError, fun all => all error rfl⟩

/-- In a sequence of events a finished call meets repetitions only. -/
def OnlyRepeats (call : ActiveCall Response) (events : List CallEvent) : Prop :=
  ∀ handled event, handled ++ [event] <+: events →
    (handleAll closure parseFromString call handled).controller.isFinished = true →
      Repeats parseFromString (handleAll closure parseFromString call handled) event

theorem handleAll_isFinished (call : ActiveCall Response) (events : List CallEvent)
    (finished : call.controller.isFinished = true) :
    (handleAll closure parseFromString call events).controller.isFinished = true := by
  induction events generalizing call with
  | nil => exact finished
  | cons event later induction =>
      exact induction _ (handle_finished closure parseFromString call event finished).1

/-- The first outcome is final exactly where the events that come later bring
nothing but what the call holds already. -/
theorem outcome_final_iff (call : ActiveCall Response) (events : List CallEvent) :
    OutcomeFinal closure parseFromString call events ↔
      OnlyRepeats closure parseFromString call events := by
  constructor
  · intro final handled event isPrefix finished
    have same := final handled (handled ++ [event]) (List.prefix_append _ _) isPrefix finished
    rw [handleAll_append] at same
    exact (outcome_handle_iff closure parseFromString _ event finished).mp same
  · rintro repeats handled seen ⟨later, rfl⟩ isPrefix finished
    induction later using List.reverseRecOn with
    | nil => rw [List.append_nil]
    | append_singleton earlier event induction =>
        rw [← List.append_assoc] at isPrefix ⊢
        have before : handled ++ earlier <+: events :=
          (List.prefix_append _ _).trans isPrefix
        have stillFinished := handleAll_isFinished closure parseFromString _ earlier finished
        rw [← handleAll_append] at stillFinished
        have step := (outcome_handle_iff closure parseFromString _ event stillFinished).mpr
          (repeats _ event isPrefix stillFinished)
        rw [handleAll_append]
        exact step.trans (induction before)

/-- A response that comes after the timeout replaces the error and fills in the
response object. -/
theorem late_response_not_final :
    ¬OutcomeFinal (some fun controller response => (controller, response))
      (fun pbData => (pbData, true)) (.start {} [])
      [.timeoutArrives, .responds { errCode := 7, errInfo := ascii "late", pbData := [0x01] }] := by
  intro final
  have same := final [.timeoutArrives] _ (by decide +kernel) (List.prefix_refl _)
    (by decide +kernel)
  revert same
  decide +kernel

end NetRpc.RpcChannel
