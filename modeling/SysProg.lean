import SysProg.Lib.Run
import SysProg.Lib.SlotTable
import SysProg.Lib.CString
import SysProg.Lib.Memory
import SysProg.Lib.StringBuffer
import SysProg.Lib.Lines
import SysProg.Lib.RestartPipe
import SysProg.Lib.RingBuffer
import SysProg.Lib.Census
import SysProg.Lib.Semaphore
import SysProg.Lib.SwapScan
import SysProg.Lib.Lock
import SysProg.Lib.Decimal
import SysProg.Lib.PosixMutex
import SysProg.Lib.Progress
import SysProg.Lib.Refinement
import SysProg.Lib.TypedQueue
import SysProg.Lib.DescriptorTable
import SysProg.Lib.NotifyQueue
import SysProg.Lib.LinkedList
import SysProg.Lib.FifoOpen
import SysProg.Lib.Signals
import SysProg.EpollTimerfd.Table
import SysProg.EpollTimerfd.Server
import SysProg.EpollTimerfd.Consistency
import SysProg.EpollTimerfd.Timeout
import SysProg.EpollTimerfd.AddEv
import SysProg.FileTransfer.Programs
import SysProg.FileTransfer.Connection
import SysProg.FileTransfer.Name
import SysProg.FileTransfer.Flag
import SysProg.FileTransfer.Completion
import SysProg.FileTransfer.Parametric
import SysProg.FileTransfer.Content
import SysProg.FileTransfer.Pool
import SysProg.FileTransfer.Descriptors
import SysProg.FileTransfer.Termination
import SysProg.Chat.Server
import SysProg.Chat.Survival
import SysProg.Chat.Stream
import SysProg.Chat.Client
import SysProg.Chat.Table
import SysProg.Chat.Scan
import SysProg.Chat.Bounds
import SysProg.Chat.Framing
import SysProg.Chat.TotalOrder
import SysProg.WorkQueue.Queue
import SysProg.WorkQueue.Program
import SysProg.WorkQueue.Notify
import SysProg.Supervisor
import SysProg.SysVSem.Create
import SysProg.SysVSem.CriticalSection
import SysProg.SysVSem.WaitForZero
import SysProg.ShmHandoff
import SysProg.ShmShell
import SysProg.ShmGet
import SysProg.GuessGame
import SysProg.GuessGame.Opening
import SysProg.IoServers.Poll
import SysProg.IoServers.Capacity
import SysProg.IoServers.Select
import SysProg.IoServers.SocketTable
import SysProg.IoServers.Epoll
import SysProg.IoServers.Rts
import SysProg.MsgQueue
import SysProg.MsgSender.Posix
import SysProg.MsgSender.SysV
import SysProg.MsgSender.Regex
import SysProg.MsgSender.Receivers
import SysProg.MsgSender.Notification
import SysProg.CleanupMutex
import SysProg.RobustMutex
import SysProg.MutexType
import SysProg.MutexShared
import SysProg.MutexCounter
import SysProg.SemaphoreChildren
import SysProg.Coprocess
import SysProg.SumStrnum
import SysProg.TaskList
import SysProg.PtyLoop
import SysProg.Plumbing
import SysProg.DirWalk.Walk
import SysProg.DirWalk.Count
import SysProg.DirWalk.Bounds
import SysProg.PosixSystem
import SysProg.Daemonize
import SysProg.Alarms.Sleep2
import SysProg.Alarms.SigJmp
import SysProg.OobServer
import SysProg.CounterReads
import SysProg.EchoServer
import SysProg.EchoPair
import SysProg.Nice
import SysProg.ReadnWriten
import SysProg.PtyCopy
import SysProg.ErrorLine
import SysProg.ElapsedTime
