import Reactor.Lib.Transition
import Reactor.Lib.Outcome
import Reactor.Lib.Memory
import Reactor.Lib.Digits
import Reactor.Lib.Monitor
import Reactor.Lib.Blocks
import Reactor.Basic
import Reactor.Buffer
import Reactor.BufferGrowth
import Reactor.Poller
import Reactor.PollerRegistry
import Reactor.EventLoop
import Reactor.TcpConnection
import Reactor.StringPieces
import Reactor.LoopWork
import Reactor.EventLoopThread
import Reactor.TcpConnectionSpec
import Reactor.Connection
import Reactor.ConnectionStream
import Reactor.ConnectionClose
import Reactor.ConnectionShutdown
import Reactor.TimerQueue
import Reactor.TimerReuse
import Reactor.TimerCancel
import Reactor.TimerFiring
import Reactor.TimerAlarm
import Reactor.TimerReset
import Reactor.TcpServer
import Reactor.TcpServerSteps
import Reactor.ConnectionLife
import Reactor.ServerLifetime
import Reactor.ConnectionNames
import Reactor.QueuedSend
import Reactor.EchoServer
import Reactor.BufferSequence
import Reactor.BufferCodec
import Reactor.ConnectionWrite
import Reactor.ServerHost
import Reactor.ConnectionChannel
import Reactor.HostLife
import Reactor.HostRegistry
import Reactor.HostRuns
import Reactor.DescriptorReuse
import Reactor.HostTeardown
import Reactor.ChannelOwners
import Reactor.BlockingQueue
import Reactor.ThreadPool
import Reactor.LogStream
import Reactor.AsyncLogging
import Reactor.LogFile
import Reactor.EventLoopThreadPool
import Reactor.Lib.Decoder
import Reactor.Lib.While
import Reactor.BufferLines
import Reactor.LengthHeaderCodec
import Reactor.HubCodec
import Reactor.Hub
import Reactor.HubRuns
import Reactor.HubClient
