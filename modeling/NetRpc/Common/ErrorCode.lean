/-! # Error codes -/

namespace NetRpc

def errorPeerClosed : Int32 := 10000000

def errorFailedConnect : Int32 := 10000001

def errorFailedDeserialize : Int32 := 10000003

def errorFailedSerialize : Int32 := 10000004

def errorRpcCallTimeout : Int32 := 10000007

def errorServiceNotFound : Int32 := 10000008

def errorParseServiceName : Int32 := 10000010

def errorRpcChannelInit : Int32 := 10000011

def errorRpcPeerAddr : Int32 := 10000012

end NetRpc
