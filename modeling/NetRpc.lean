import NetRpc.Coder.Bounds
import NetRpc.Coder.Progress
import NetRpc.Coder.Chunking
import NetRpc.Coder.Image
import NetRpc.Coder.Ranges
import NetRpc.Coder.Rejected
import NetRpc.Coder.StringCoder
import NetRpc.Common.LiveRing
import NetRpc.Common.LogReading
import NetRpc.Common.LogShutdown
import NetRpc.Common.MsgId
import NetRpc.Common.Padding
import NetRpc.EventLoop.FdTable
import NetRpc.EventLoop.Interest
import NetRpc.EventLoop.Restart
import NetRpc.EventLoop.TaskQueue
import NetRpc.EventLoop.TimerDelete
import NetRpc.EventLoop.TimerRace
import NetRpc.EventLoop.Wakeup
import NetRpc.LoadBalance.ListOrder
import NetRpc.LoadBalance.RoundRobin
import NetRpc.LoadBalance.Transparency
import NetRpc.LoadBalance.StandardDigest
import NetRpc.Rpc.Responses
import NetRpc.Rpc.ServiceNames
import NetRpc.Rpc.CallSetup
import NetRpc.Rpc.Channel
import NetRpc.Rpc.ChannelLife
import NetRpc.Rpc.ConnectRetry
import NetRpc.Rpc.Discovery
import NetRpc.Rpc.ErrorReply
import NetRpc.Rpc.FirstOutcome
import NetRpc.Rpc.MessageTracing
import NetRpc.Rpc.RemoteCall
import NetRpc.Tcp.Acknowledged
import NetRpc.Tcp.ByteQueue
import NetRpc.Tcp.Closing
import NetRpc.Tcp.CursorMoves
import NetRpc.Tcp.Descriptors
import NetRpc.Tcp.Matching
import NetRpc.Tcp.Reactors
import NetRpc.Tcp.ReceivePath
import NetRpc.Tcp.SendPath
import NetRpc.Tcp.Server
import NetRpc.Tcp.Sweeping
import NetRpc.Tcp.SocketLoops
