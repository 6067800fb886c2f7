import MyNetLib.Library.Machine
import MyNetLib.Library.Memory
import MyNetLib.Library.Decimal
import MyNetLib.Library.Refinement
import MyNetLib.Library.Heap
import MyNetLib.Library.BinaryHeap
import MyNetLib.Library.HeapOrder
import MyNetLib.Library.Chunks
import MyNetLib.Library.Regex
import MyNetLib.Library.Table
import MyNetLib.Library.Simulation
import MyNetLib.Library.Conjugate
import MyNetLib.Library.Calendar
import MyNetLib.Library.FixedWidth
import MyNetLib.Buffer.Model
import MyNetLib.Buffer.Fifo
import MyNetLib.Buffer.Limits
import MyNetLib.Buffer.Capacity
import MyNetLib.Buffer.TwoRuns
import MyNetLib.Reactor.Channel
import MyNetLib.Reactor.EpollPoller
import MyNetLib.Reactor.EmptyMask
import MyNetLib.Reactor.PollPoller
import MyNetLib.Reactor.Slots
import MyNetLib.Reactor.TwoPollers
import MyNetLib.Reactor.ActiveChannels
import MyNetLib.Reactor.EventLoop
import MyNetLib.Reactor.Functors
import MyNetLib.Reactor.Wakeup
import MyNetLib.Reactor.LoopThread
import MyNetLib.Reactor.EventLoopThread
import MyNetLib.Reactor.EventLoopThreadPool
import MyNetLib.Reactor.StartLoop
import MyNetLib.Connection.TcpConnection
import MyNetLib.Connection.WriteError
import MyNetLib.Connection.System
import MyNetLib.Connection.Moves
import MyNetLib.Connection.Stream
import MyNetLib.Connection.Capture
import MyNetLib.Connection.Account
import MyNetLib.Connection.WriteComplete
import MyNetLib.Connection.HalfClose
import MyNetLib.Connection.Drain
import MyNetLib.Example.EchoServer
import MyNetLib.Example.Pingpong
import MyNetLib.Logging.LogStream
import MyNetLib.Logging.Concatenation
import MyNetLib.Logging.Logger
import MyNetLib.Logging.AsyncLogging
import MyNetLib.Logging.Conservation
import MyNetLib.Logging.Spares
import MyNetLib.Logging.Overload
import MyNetLib.Logging.Drain
import MyNetLib.Logging.LogFile
import MyNetLib.Logging.FileNames
import MyNetLib.Logging.Accounting
import MyNetLib.Logging.Pipeline
import MyNetLib.Config.PullConfig
import MyNetLib.Config.Keys
import MyNetLib.Config.RoundTrip
import MyNetLib.Timer.TimerId
import MyNetLib.Timer.TimerManager
import MyNetLib.Timer.Firing
import MyNetLib.Timer.Queue
import MyNetLib.Timer.Pass
import MyNetLib.Timer.Rounds
import MyNetLib.Timer.CheckAndHandle
import MyNetLib.Timer.Timeout
import MyNetLib.Timer.PassRun
import MyNetLib.Timer.Polling
import MyNetLib.Timer.PollTimeout
import MyNetLib.Server.MainLoop
import MyNetLib.Server.TcpServer
import MyNetLib.Server.Names
import MyNetLib.Server.Addresses
import MyNetLib.Server.Lifecycle
import MyNetLib.Server.Placement
import MyNetLib.Server.Projection
import MyNetLib.Server.State
import MyNetLib.Server.Balance
import MyNetLib.Server.Streams
import MyNetLib.Server.Disconnect
import MyNetLib.Server.Dispatch
import MyNetLib.Server.Close
import MyNetLib.Server.Ownership
import MyNetLib.Server.Descriptors
import MyNetLib.Server.Protocol
import MyNetLib.Server.Holders
import MyNetLib.Server.Destructed
import MyNetLib.Example.Startup
