import MuduoRebuild.Foundations.Run
import MuduoRebuild.Buffer.Basic
import MuduoRebuild.Buffer.Operations
import MuduoRebuild.Buffer.Refinement
import MuduoRebuild.Codec.Basic
import MuduoRebuild.Codec.Decoder
import MuduoRebuild.Channel
import MuduoRebuild.Codec.RoundTrip
import MuduoRebuild.Foundations.SwapRemove
import MuduoRebuild.Poller.Basic
import MuduoRebuild.Poller.PollPoller
import MuduoRebuild.Poller.EpollPoller
import MuduoRebuild.Poller.Interchange
import MuduoRebuild.Foundations.OrderedSet
import MuduoRebuild.TimerQueue.Basic
import MuduoRebuild.TimerQueue.Ownership
import MuduoRebuild.Foundations.History
import MuduoRebuild.TimerQueue.Cancel
import MuduoRebuild.TcpConnection.Basic
import MuduoRebuild.TcpConnection.Operations
import MuduoRebuild.Foundations.Mailbox
import MuduoRebuild.TcpConnection.OutputStream
import MuduoRebuild.TcpConnection.Backlog
import MuduoRebuild.TcpConnection.Lifecycle
import MuduoRebuild.TimerQueue.Expiry
import MuduoRebuild.TimerQueue.Rounds
import MuduoRebuild.EventLoop.Basic
import MuduoRebuild.EventLoop.FunctorQueue
import MuduoRebuild.EventLoop.Wakeup
import MuduoRebuild.EventLoop.EventLoopThread
import MuduoRebuild.TcpConnection.Quiescence
import MuduoRebuild.TcpConnection.HalfClose
import MuduoRebuild.TcpClient.Basic
import MuduoRebuild.TcpClient.Operations
import MuduoRebuild.TcpClient.Stop
import MuduoRebuild.TcpClient.Attempts
import MuduoRebuild.TcpClient.Exclusive
import MuduoRebuild.TcpClient.Reconnect
import MuduoRebuild.Buffer.ReadFd
import MuduoRebuild.Poller.Registration
import MuduoRebuild.Poller.Representation
import MuduoRebuild.Poller.Silence
import MuduoRebuild.TcpConnection.WriteComplete
import MuduoRebuild.Acceptor
import MuduoRebuild.TcpServer.Basic
import MuduoRebuild.TcpServer.Connections
import MuduoRebuild.ChatServer.Basic
import MuduoRebuild.ChatServer.Broadcast
import MuduoRebuild.TcpConnection.Lifetime
import MuduoRebuild.Foundations.Affinity
import MuduoRebuild.OneLoopPerThread
import MuduoRebuild.Reactor.Basic
import MuduoRebuild.Reactor.Operations
import MuduoRebuild.Reactor.Turns
import MuduoRebuild.Reactor.Removal
import MuduoRebuild.Buffer.Space
import MuduoRebuild.TimerQueue.Identity
import MuduoRebuild.TimerQueue.AddTimer
import MuduoRebuild.TcpConnection.Interest
import MuduoRebuild.Reactor.Lifetime
import MuduoRebuild.Reactor.Custody
import MuduoRebuild.Reactor.Callbacks
import MuduoRebuild.Reactor.Dispatch
import MuduoRebuild.Codec.Lossless
import MuduoRebuild.Codec.InputBuffer
import MuduoRebuild.Poller.Poll
import MuduoRebuild.TcpClient.Backoff
import MuduoRebuild.TimerQueue.Spacing
import MuduoRebuild.Foundations.Drain
import MuduoRebuild.TcpServer.RoundRobin
import MuduoRebuild.TcpServer.Drain
import MuduoRebuild.ChatServer.Room
import MuduoRebuild.EventLoop.Leaving
import MuduoRebuild.Codec.Transport
import MuduoRebuild.TcpConnection.OutputBuffer
import MuduoRebuild.EventLoop.ThreadPool
import MuduoRebuild.TcpConnection.Course
import MuduoRebuild.ChatClient.Terminal
import MuduoRebuild.TcpConnection.Untroubled
