import Anon.Lib.Machine
import Anon.Lib.Counting
import Anon.Lib.Segment
import Anon.Lib.ListFamily
import Anon.Lib.Lock
import Anon.Lib.Multimap
import Anon.BigEndian
import Anon.Timespec
import Anon.Lib.CString
import Anon.Tls.HostName
import Anon.Lib.OrderedMap
import Anon.Fiber.Mutex
import Anon.Fiber.MutexTheorems
import Anon.Fiber.WakeLists
import Anon.Fiber.WakeMoves
import Anon.Fiber.WakeParties
import Anon.Fiber.WakePlaces
import Anon.Fiber.WakeListsTheorems
import Anon.Fiber.JoinTheorems
import Anon.Stun.Parser
import Anon.Lib.Except
import Anon.B64.Codec
import Anon.B64.RoundTripTheorems
import Anon.Stun.Authentication
import Anon.Stun.BoundsTheorems
import Anon.Stun.Reply
import Anon.Stun.ReplyTheorems
import Anon.Stun.Wire
import Anon.Dispatcher.Mapping
import Anon.Dispatcher.Dispatch
import Anon.Dispatcher.Responders
import Anon.Dispatcher.PlainExpressions
import Anon.Dispatcher.MatchingTheorems
import Anon.Dispatcher.PreflightTheorems
import Anon.Dispatcher.HeaderParsing
import Anon.Dispatcher.PercentCodec
import Anon.Dispatcher.QueryItems
import Anon.Dispatcher.TransportTheorems
import Anon.Dispatcher.ItemTheorems
import Anon.Sctp.Checksum
import Anon.Sctp.Association
import Anon.Sctp.AssociationTheorems
import Anon.Sctp.Sack
import Anon.Sctp.SackTheorems
import Anon.Sctp.Chunks
import Anon.Sctp.OutputTheorems
import Anon.Sctp.RejectionTheorems
import Anon.Sctp.CumulativeTheorems
import Anon.Sctp.DeliveryTheorems
import Anon.Sctp.AcknowledgementTheorems
import Anon.Sctp.BoundsTheorems
import Anon.Sctp.OptionTheorems
import Anon.Sctp.SackDecodingTheorems
import Anon.IoDispatch.Pause
import Anon.IoDispatch.PauseTheorems
import Anon.IoDispatch.Handshake
import Anon.IoDispatch.HandshakeTheorems
import Anon.IoDispatch.OnEachTheorems
import Anon.IoDispatch.AtRestTheorems
import Anon.IoDispatch.Timer
import Anon.IoDispatch.TimerTheorems
import Anon.Fiber.NetPipes
import Anon.Fiber.NetPipesPlaces
import Anon.Fiber.OnlyFibersTheorems
import Anon.Fiber.SweepTaskTheorems
import Anon.Tcp.Server
import Anon.Tcp.ServerTheorems
import Anon.Sproc.Manager
import Anon.Sproc.ManagerTheorems
import Anon.Epc.Lookup
import Anon.Epc.LookupTheorems
import Anon.Epc.Slots
import Anon.Epc.SlotsTheorems
import Anon.Http.Http2
import Anon.Http.Http2Theorems
import Anon.Http.Server
import Anon.Http.ServerTheorems
import Anon.Dns.Cache
import Anon.Dns.CacheTheorems
import Anon.Sqs.Listener
import Anon.Sqs.ListenerTheorems
import Anon.Webrtc.Offer
import Anon.Webrtc.OfferTheorems
import Anon.Http.Response
import Anon.Http.ResponseTheorems
import Anon.Sqs.ReceiveLoop
import Anon.Sqs.ReceiveLoopTheorems
import Anon.Stun.MappedAddressTheorems
import Anon.Webrtc.SummaryTheorems
import Anon.Webrtc.FingerprintTheorems
import Anon.Webrtc.ConnectivityTheorems
import Anon.TimespecTheorems
import Anon.Lib.Calendar
import Anon.EpocTime
import Anon.EpocTimeTheorems
import Anon.Lib.Split
import Anon.Dispatcher.RequestFields
import Anon.Dispatcher.QueryFieldTheorems
import Anon.Dispatcher.QueryRemovalTheorems
import Anon.Dispatcher.CookieTheorems
import Anon.Dispatcher.HeaderViews
import Anon.Dispatcher.HeaderViewTheorems
import Anon.Fiber.PipeSweep
import Anon.Fiber.PipeSweepInvariant
import Anon.Fiber.PipeSweepSteps
import Anon.Fiber.PipeSweepTheorems
import Anon.Sctp.GapBlockTheorems
import Anon.Epc.Retry
import Anon.Http.Settings
import Anon.Lib.Replace
import Anon.Sqs.Body
import Anon.Epc.SockaddrIn6
import Anon.Epc.MergeTheorems
import Anon.Mcdc.Reply
import Anon.Mcdc.ReplyTheorems
import Anon.Dns.GetAddrinfo
import Anon.Dns.GetAddrinfoTheorems
import Anon.Dtls.Dispatch
import Anon.Dtls.SweepTheorems
import Anon.Epc.Sockets
import Anon.Epc.SocketTheorems
import Anon.Fiber.MutexUse
import Anon.Fiber.RunInParallel
import Anon.Fiber.RunInParallelTheorems
import Anon.Fiber.RunInFiber
import Anon.Fiber.RunInFiberTheorems
import Anon.Lib.StringBuf
import Anon.Pipe
import Anon.PipeTheorems
import Anon.Lib.DoublyLinked
import Anon.Lib.Simulation
import Anon.Lib.Exclusive
import Anon.Udp.Dispatch
import Anon.Udp.DeliveryTheorems
import Anon.Dns.Service
import Anon.Dns.ServiceTheorems
import Anon.Lib.FixedWidth
import Anon.BigId
import Anon.BigIdTheorems
import Anon.Fiber.PipeLinks
import Anon.Fiber.PipeLinksTheorems
import Anon.Fiber.Stream
import Anon.Fiber.StreamTheorems
