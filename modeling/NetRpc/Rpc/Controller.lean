import NetRpc.Common.NetByte
import NetRpc.Common.ErrorCode

/-! # RpcController -/

namespace NetRpc

structure RpcController where
  errorCode : Int32 := 0
  errorInfo : Bytes := []
  isFailed : Bool := false
  isCanceled : Bool := false
  isFinished : Bool := false
  timeout : Int32 := 1000
deriving DecidableEq

namespace RpcController

def startCancel (controller : RpcController) : RpcController :=
  { controller with isCanceled := true, isFailed := true, isFinished := true }

def setError (controller : RpcController) (errorCode : Int32) (errorInfo : Bytes) :
    RpcController :=
  { controller with errorCode, errorInfo, isFailed := true }

def setFinished (controller : RpcController) (value : Bool) : RpcController :=
  { controller with isFinished := value }

/-- The error code is one that `connect` leaves in the client. -/
def HoldsConnectError (controller : RpcController) : Prop :=
  controller.errorCode = errorPeerClosed ∨ controller.errorCode = errorFailedConnect

instance (controller : RpcController) : Decidable controller.HoldsConnectError :=
  inferInstanceAs (Decidable (_ ∨ _))

end RpcController

end NetRpc
