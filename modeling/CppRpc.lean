import CppRpc.Lib.Runs
import CppRpc.Lib.Progress
import CppRpc.Lib.Components
import CppRpc.Lib.CallService
import CppRpc.Lib.Fifo
import CppRpc.Lib.Framing
import CppRpc.Lib.CData
import CppRpc.Lib.BinaryHeap
import CppRpc.Lib.Totals
import CppRpc.Lib.Proto3
import CppRpc.Lib.CText
import CppRpc.Lib.Regex
import CppRpc.Lib.Tokens
import CppRpc.Util.Buffer
import CppRpc.Util.Ring
import CppRpc.Util.RingFifo
import CppRpc.Util.Package
import CppRpc.Util.PackageWrite
import CppRpc.Util.RingSafety
import CppRpc.Util.Condition
import CppRpc.Util.ThreadPool
import CppRpc.Util.PoolWaiting
import CppRpc.Util.PoolShutdown
import CppRpc.Util.PoolDrain
import CppRpc.Util.PoolQuit
import CppRpc.Util.PoolProgress
import CppRpc.Util.PoolRunning
import CppRpc.Util.TimerManager
import CppRpc.Util.TimerParts
import CppRpc.Util.TimerHeap
import CppRpc.Util.TimerScan
import CppRpc.Util.TimerQuiet
import CppRpc.Util.TimerRemove
import CppRpc.Util.TimerDeadline
import CppRpc.Util.TimerDelay
import CppRpc.Util.TimerRepeats
import CppRpc.Util.TimerPeriod
import CppRpc.Util.ConfigRead
import CppRpc.Util.ServiceConfig
import CppRpc.Net.Socket
import CppRpc.Net.Delivery
import CppRpc.Net.Drain
import CppRpc.Net.Receiver
import CppRpc.Net.ReadSafety
import CppRpc.Net.WritePump
import CppRpc.Net.IoService
import CppRpc.CodeGen.Messages
import CppRpc.CodeGen.Parse
import CppRpc.CodeGen.Printed
import CppRpc.CodeGen.Misread
import CppRpc.Client.ResponseHandle
import CppRpc.Client.ReadOutcome
import CppRpc.Client.Wakeup
import CppRpc.Client.WriteInterest
import CppRpc.Client.Requests
import CppRpc.Client.EarlyWakeup
import CppRpc.Client.HandlesLeft
import CppRpc.Client.TimeOuts
import CppRpc.Client.SendRequest
import CppRpc.Client.Stub
import CppRpc.CodeGen.Generate
import CppRpc.CodeGen.DefinitionFile
import CppRpc.Server.Tasks
import CppRpc.Server.PollThreads
import CppRpc.Server.Poll
import CppRpc.Server.OneShot
import CppRpc.Server.Rearmed
import CppRpc.Server.Connections
import CppRpc.Server.Admission
import CppRpc.Server.RpcFunc
import CppRpc.Server.ResponseFits
import CppRpc.Server.Responses
import CppRpc.Server.InOrder
import CppRpc.Server.Answers
import CppRpc.Server.Progress
import CppRpc.CodeGen.RemoteCall
import CppRpc.CodeGen.Compiles
import CppRpc.Client.StubBuffer
import CppRpc.CodeGen.Skew
import CppRpc.System.StubCall
import CppRpc.System.Rpc
import CppRpc.System.Traffic
import CppRpc.System.Matching
import CppRpc.System.RoundTrip
import CppRpc.System.Refinement
import CppRpc.System.Settling
