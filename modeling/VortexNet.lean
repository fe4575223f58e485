import VortexNet.Codec.Echo
import VortexNet.Codec.TLVCodec
import VortexNet.Http.ChunkedBody
import VortexNet.Http.HeadText
import VortexNet.Http.HeaderViews
import VortexNet.Http.HttpParser
import VortexNet.Http.HttpServer
import VortexNet.Http.Picohttpparser
import VortexNet.Http.RequestLength
import VortexNet.Http.Respond
import VortexNet.Http.Response
import VortexNet.Http.StorageRefinement
import VortexNet.Lib.BigEndian
import VortexNet.Lib.Circle
import VortexNet.Lib.CopyOnWrite
import VortexNet.Lib.FlatJson
import VortexNet.Lib.Framing
import VortexNet.Lib.Reading
import VortexNet.Lib.SortedSet
import VortexNet.Lib.WeightedTurns
import VortexNet.Net.ConnectorOrder
import VortexNet.Net.ConnectorSockets
import VortexNet.Net.CrossThread
import VortexNet.Net.EPollPoller
import VortexNet.Net.EventLoop
import VortexNet.Net.EventLoopThread
import VortexNet.Net.EventLoopThreadPool
import VortexNet.Net.Lifecycle
import VortexNet.Net.LoopRuns
import VortexNet.Net.ServerBalance
import VortexNet.Net.TcpClient
import VortexNet.Net.TcpConnection
import VortexNet.Net.TimerAgreement
import VortexNet.Net.TimerAlarm
import VortexNet.Net.TimerRuns
import VortexNet.Net.TimerSafety
import VortexNet.Proxy.Availability
import VortexNet.Proxy.Common.AliveNodes
import VortexNet.Proxy.Common.HashRing
import VortexNet.Proxy.Common.Membership
import VortexNet.Proxy.Common.PanicMode
import VortexNet.Proxy.Common.Probes
import VortexNet.Proxy.Common.RoundRobin
import VortexNet.Proxy.Common.Selector
import VortexNet.Proxy.L4.CheckerTask
import VortexNet.Proxy.L4.ClientRefinement
import VortexNet.Proxy.L4.ContextHeld
import VortexNet.Proxy.L4.Forwarding
import VortexNet.Proxy.L7.ApiKeyAuth
import VortexNet.Proxy.L7.ApiKeys
import VortexNet.Proxy.L7.BadGateway
import VortexNet.Proxy.L7.BodyCount
import VortexNet.Proxy.L7.Carried
import VortexNet.Proxy.L7.Charge
import VortexNet.Proxy.L7.ChunkedResponse
import VortexNet.Proxy.L7.Connections
import VortexNet.Proxy.L7.Counting
import VortexNet.Proxy.L7.Gateway
import VortexNet.Proxy.L7.GatewayLaws
import VortexNet.Proxy.L7.HttpContext
import VortexNet.Proxy.L7.IdlePool
import VortexNet.Proxy.L7.Interleaving
import VortexNet.Proxy.L7.LinkLaws
import VortexNet.Proxy.L7.Messages
import VortexNet.Proxy.L7.ModelName
import VortexNet.Proxy.L7.ModelRouting
import VortexNet.Proxy.L7.NullClient
import VortexNet.Proxy.L7.Orderly
import VortexNet.Proxy.L7.Refusal
import VortexNet.Proxy.L7.Relay
import VortexNet.Proxy.L7.ReturnConnection
import VortexNet.Proxy.L7.Unanswered
import VortexNet.Proxy.L7.Upload
import VortexNet.Proxy.RateBound
import VortexNet.Proxy.Snapshots
import VortexNet.Proxy.TokenArithmetic
import VortexNet.Proxy.TokenClock
import VortexNet.Proxy.TokenRace
import VortexNet.Utils.Buffer
import VortexNet.Utils.BufferQueue
