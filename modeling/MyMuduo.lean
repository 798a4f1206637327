import MyMuduo.Proof.HttpService
import MyMuduo.Proof.Output
import MyMuduo.Proof.Timer
import MyMuduo.Proof.AsyncLogging
import MyMuduo.Proof.EventLoop
import MyMuduo.Proof.Server
import MyMuduo.Proof.TimerQueue
import MyMuduo.Proof.HttpVerdict
import MyMuduo.Proof.Acceptor
import MyMuduo.Proof.LogStop
import MyMuduo.Proof.Shutdown
import MyMuduo.Proof.HttpDispatch
import MyMuduo.Proof.ServerMoves
import MyMuduo.Proof.IdleServer
import MyMuduo.Proof.IdleRelease
import MyMuduo.Proof.Channels
import MyMuduo.Proof.BufferBounds
import MyMuduo.Proof.HttpResponse
import MyMuduo.Proof.HttpBody
import MyMuduo.Proof.ReadFailure
import MyMuduo.Proof.ThreadPool
import MyMuduo.Spec.CrossSend
import MyMuduo.Proof.CrossSend
import MyMuduo.Spec.IdleRace
import MyMuduo.Proof.Handlers
import MyMuduo.Proof.IdleRace
import MyMuduo.Proof.LogStream
import MyMuduo.Spec.Logging
import MyMuduo.Proof.Timestamp
import MyMuduo.Proof.Logging
import MyMuduo.Spec.LogFile
import MyMuduo.Proof.LogFile
import MyMuduo.Lib.RoundRobin
import MyMuduo.Proof.LoopThreadPool
import MyMuduo.Proof.HttpForm
import MyMuduo.Proof.ParserReset
import MyMuduo.Proof.Persistence
import MyMuduo.Spec.PeerServer
import MyMuduo.Proof.PeerServer
import MyMuduo.Lib.Blocks
import MyMuduo.Proof.LogSystem
import MyMuduo.Proof.ServerConnections
import MyMuduo.Proof.ServerStreams
import MyMuduo.Proof.ServerSends
import MyMuduo.Proof.HttpAnswer
import MyMuduo.Proof.HttpClient
import MyMuduo.Proof.LoopQuit
import MyMuduo.Proof.ServerTurns
import MyMuduo.Lib.Descriptors
import MyMuduo.Proof.AcceptorFds
import MyMuduo.Proof.TimedLoop
