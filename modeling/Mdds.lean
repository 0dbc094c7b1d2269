import Mdds.Lib.Run
import Mdds.Lib.SeqWindow
import Mdds.Qos
import Mdds.Reader
import Mdds.ReceiveWindow
import Mdds.ReaderRun
import Mdds.Lib.PairCount
import Mdds.LossAccounting
import Mdds.Acknack
import Mdds.Lib.KeyedList
import Mdds.Participant
import Mdds.NackState
import Mdds.AnnounceCodec
import Mdds.Wire
import Mdds.WriteRace
import Mdds.Link
import Mdds.NackRound
import Mdds.Replay
import Mdds.LocalJoin
import Mdds.LateJoin
import Mdds.EndpointGuids
import Mdds.Endpoints
import Mdds.World
import Mdds.VolatileReader
import Mdds.Retransmit
import Mdds.Fragment
import Mdds.ParticipantImpl
import Mdds.Delivery
import Mdds.FrameLimits
import Mdds.AnnounceLoop
import Mdds.Lib.Notices
import Mdds.RemoteState
import Mdds.Stack
import Mdds.Udp
import Mdds.Dsoftbus
import Mdds.Callbacks
import Mdds.Channels
import Mdds.Lib.Fanout
import Mdds.Routing
import Mdds.FrameRoundTrip
import Mdds.AnnounceExact
import Mdds.Announceable
import Mdds.Lib.BoundedRead
import Mdds.RawDecoders
import Mdds.Convergence
import Mdds.ReliablePairs
import Mdds.WriterHistory
import Mdds.Autonomy
import Mdds.Lib.Shared
import Mdds.SendLane
import Mdds.Matching
import Mdds.SendCeiling
import Mdds.Lib.Chunks
import Mdds.Reassembly
import Mdds.ArrivalOrder
import Mdds.Backpressure
import Mdds.KeepLast
import Mdds.Lifespan
import Mdds.Liveliness
import Mdds.Deliver
import Mdds.Teardown
import Mdds.SampleLength
import Mdds.Trailer
import Mdds.Lib.Buffer
import Mdds.ReaderHistory
import Mdds.Lib.Soup
import Mdds.Ledger
import Mdds.Fabric
import Mdds.Authenticity
import Mdds.Domain
import Mdds.Lib.Tally
import Mdds.Exchange
import Mdds.Recovery
import Mdds.Lib.Lease
import Mdds.Presence
import Mdds.UdpNetwork
import Mdds.Deployment
import Mdds.Neighbours
