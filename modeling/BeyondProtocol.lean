import BeyondProtocol.Base.Handle
import BeyondProtocol.Base.HandlerJobs
import BeyondProtocol.Base.ThreadPool
import BeyondProtocol.Base.ThreadPoolRuns
import BeyondProtocol.Base.ThreadPoolWakeup
import BeyondProtocol.Base.WorkerQueue
import BeyondProtocol.Framework.Arrivals
import BeyondProtocol.Framework.Direction
import BeyondProtocol.Framework.Exceptions
import BeyondProtocol.Framework.Fallible
import BeyondProtocol.Framework.ForkJoin
import BeyondProtocol.Framework.FormQuery
import BeyondProtocol.Framework.History
import BeyondProtocol.Framework.Inverse
import BeyondProtocol.Framework.Mean
import BeyondProtocol.Framework.Msgpack
import BeyondProtocol.Framework.PackedStream
import BeyondProtocol.Framework.Ranking
import BeyondProtocol.Framework.Rfc3986
import BeyondProtocol.Framework.Ring
import BeyondProtocol.Framework.Runs
import BeyondProtocol.Framework.Sorting
import BeyondProtocol.Framework.Transducer
import BeyondProtocol.Framework.Unpacker
import BeyondProtocol.Net.BatchSort
import BeyondProtocol.Net.ChannelOrder
import BeyondProtocol.Net.Clients
import BeyondProtocol.Net.Completion
import BeyondProtocol.Net.Credit
import BeyondProtocol.Net.Delivery
import BeyondProtocol.Net.Discovery
import BeyondProtocol.Net.Enabling
import BeyondProtocol.Net.EndFrames
import BeyondProtocol.Net.Flow
import BeyondProtocol.Net.FrameSize
import BeyondProtocol.Net.FullTable
import BeyondProtocol.Net.Lookup
import BeyondProtocol.Net.Net
import BeyondProtocol.Net.Order
import BeyondProtocol.Net.PacketQueue
import BeyondProtocol.Net.Pausing
import BeyondProtocol.Net.PeerKnown
import BeyondProtocol.Net.Registry
import BeyondProtocol.Net.Release
import BeyondProtocol.Net.Reorder
import BeyondProtocol.Net.RequestSize
import BeyondProtocol.Net.Requests
import BeyondProtocol.Net.Stripping
import BeyondProtocol.Net.Universe
import BeyondProtocol.Net.UuidOrder
import BeyondProtocol.Peer.ClockInfo
import BeyondProtocol.Peer.Closing
import BeyondProtocol.Peer.DispatchReads
import BeyondProtocol.Peer.Dispatcher
import BeyondProtocol.Peer.Handshake
import BeyondProtocol.Peer.Jobs
import BeyondProtocol.Peer.Rpc
import BeyondProtocol.Peer.RpcLink
import BeyondProtocol.Peer.SendLock
import BeyondProtocol.Peer.TcpLink
import BeyondProtocol.Peer.Wakeup
import BeyondProtocol.Protocol.Base64
import BeyondProtocol.Protocol.Connection
import BeyondProtocol.Protocol.FrameID
import BeyondProtocol.Protocol.Packet
import BeyondProtocol.Protocol.Uri
import BeyondProtocol.Protocol.UriAttributes
import BeyondProtocol.Protocol.UriBase
import BeyondProtocol.Protocol.UriCopy
import BeyondProtocol.Protocol.UriParse
import BeyondProtocol.Protocol.UriText
import BeyondProtocol.Protocol.UriTruncate
import BeyondProtocol.Protocol.WebSocket
import BeyondProtocol.Protocol.WebSocketConnect
import BeyondProtocol.Protocol.WebSocketNext
import BeyondProtocol.Protocol.WebSocketWrite
import BeyondProtocol.Quic.OnData
import BeyondProtocol.Quic.OnDataErrors
import BeyondProtocol.Quic.OnDataStreams
import BeyondProtocol.Quic.RecvPipeline
import BeyondProtocol.Quic.SendBytes
import BeyondProtocol.Quic.SendOrder
import BeyondProtocol.Quic.SendQueue
import BeyondProtocol.Quic.StreamLink
import BeyondProtocol.Quic.WebSocketChunks
import BeyondProtocol.Quic.WebSocketDecoder
import BeyondProtocol.Quic.WebSocketFrames
import BeyondProtocol.Quic.WebSocketHeader
import BeyondProtocol.Quic.WebSocketLengths
import BeyondProtocol.Quic.WebSocketRead
import BeyondProtocol.Streams.Availability
import BeyondProtocol.Streams.Composite
import BeyondProtocol.Streams.CompositeReset
import BeyondProtocol.Streams.FileCalls
import BeyondProtocol.Streams.FileCounters
import BeyondProtocol.Streams.FileEndFrames
import BeyondProtocol.Streams.FileFormat
import BeyondProtocol.Streams.FilePlayer
import BeyondProtocol.Streams.FileReading
import BeyondProtocol.Streams.FileReplay
import BeyondProtocol.Streams.FileTimes
import BeyondProtocol.Streams.Muxer
import BeyondProtocol.Streams.MuxerAvailability
import BeyondProtocol.Streams.MuxerEnable
import BeyondProtocol.Streams.MuxerFramesets
import BeyondProtocol.Streams.MuxerLookup
import BeyondProtocol.Streams.MuxerMaps
import BeyondProtocol.Streams.MuxerRequests
import BeyondProtocol.Streams.PacketConservation
import BeyondProtocol.Streams.PacketManager
import BeyondProtocol.Streams.PacketOrder
import BeyondProtocol.Streams.PacketTermination
import BeyondProtocol.Streams.Stream
import BeyondProtocol.Streams.StreamEnabling
import BeyondProtocol.Streams.StreamRuns
