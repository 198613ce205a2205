import LinuxNet.Lib.Machine
import LinuxNet.Lib.FdLedger
import LinuxNet.Lib.SwapRemove
import LinuxNet.Lib.Bytes
import LinuxNet.Lib.CString
import LinuxNet.Lib.LastWins
import LinuxNet.Lib.PathWalk
import LinuxNet.Lib.FreeSlots
import LinuxNet.Lib.LowestFirst
import LinuxNet.Lib.SharedFiles
import LinuxNet.Lib.View
import LinuxNet.Lib.Clients
import LinuxNet.Lib.Calls
import LinuxNet.Lib.Threads
import LinuxNet.Posix.SysCalls
import LinuxNet.Posix.PollFd
import LinuxNet.Posix.Recv
import LinuxNet.Posix.DirTree
import LinuxNet.Cpp.Std
import LinuxNet.Cpp.FileSystem
import LinuxNet.Cpp.Search
import LinuxNet.Tutorials.PollServer.Loop
import LinuxNet.Tutorials.PollServer.Table
import LinuxNet.Tutorials.PollServer.Readiness
import LinuxNet.Tutorials.PollServer.Service
import LinuxNet.Tutorials.PollServer.Tracked
import LinuxNet.Tutorials.PollServer.Served
import LinuxNet.Tutorials.SelectServer.Loop
import LinuxNet.Tutorials.SelectServer.Table
import LinuxNet.Tutorials.SelectServer.Tracked
import LinuxNet.Tutorials.SelectServer.Bound
import LinuxNet.Tutorials.SelectServer.Readiness
import LinuxNet.Tutorials.SelectServer.Served
import LinuxNet.Tutorials.Conversation
import LinuxNet.Tutorials.Turns
import LinuxNet.Tutorials.ManyClients
import LinuxNet.Tutorials.MultithreadServer
import LinuxNet.Tutorials.HandleClient
import LinuxNet.Tutorials.FirstRequest
import LinuxNet.Tutorials.UdpClient
import LinuxNet.Tutorials.UdpServer
import LinuxNet.Tutorials.UdpNetwork
import LinuxNet.Tutorials.UdpExchange
import LinuxNet.Tutorials.UdpLockstep
import LinuxNet.Tutorials.Broadcast
import LinuxNet.Tutorials.RunClient
import LinuxNet.Tutorials.NonBlockingServer
import LinuxNet.Tutorials.HttpRedirection.Client
import LinuxNet.Tutorials.HttpRedirection.Buffers
import LinuxNet.Tutorials.HttpRedirection.Resources
import LinuxNet.Tutorials.HttpRedirection.Sends
import LinuxNet.Tutorials.HttpRedirection.Frame
import LinuxNet.Tutorials.HttpRedirection.Messages
import LinuxNet.Tutorials.HttpRedirection.Redirects
import LinuxNet.Tutorials.HttpRedirection.Reply
import LinuxNet.Openssl.SslServer.Loop
import LinuxNet.Openssl.SslServer.Table
import LinuxNet.Openssl.SslServer.Tracked
import LinuxNet.Openssl.SslServer.Shutdown
import LinuxNet.Openssl.SslServer.Records
import LinuxNet.Openssl.SslServer.Reading
import LinuxNet.Openssl.SslClient
import LinuxNet.Openssl.SslServer.Served
import LinuxNet.Openssl.Answers
import LinuxNet.Openssl.RunClient
import LinuxNet.ServerSetUp
import LinuxNet.Multiplexing
import LinuxNet.RequestBuffers
import LinuxNet.ReceiveLoops
import LinuxNet.Sessions
import LinuxNet.SessionsServed
import LinuxNet.Isolation
import LinuxNet.Http.Defs
import LinuxNet.Http.Parser.Parse
import LinuxNet.Http.Parser.Decode
import LinuxNet.Http.Parser.Boundary
import LinuxNet.Http.Parser.Normal
import LinuxNet.Http.Response
import LinuxNet.Http.Parser.Framing
import LinuxNet.Http.ResponseHead
import LinuxNet.Http.Router
import LinuxNet.Http.Confinement
import LinuxNet.Http.ConnectionHandler
import LinuxNet.Http.Answer
import LinuxNet.Http.Exchange
import LinuxNet.Http.Server.Loop
import LinuxNet.Http.Server.Table
import LinuxNet.Http.Server.Listener
import LinuxNet.Http.Server.Dispatch
import LinuxNet.Http.Server.Unanswered
import LinuxNet.Http.Server.Clients
import LinuxNet.Libcurl.Filename
import LinuxNet.Libcurl.Programs
import LinuxNet.Libcurl.Downloads
import LinuxNet.Libcurl.Handles
