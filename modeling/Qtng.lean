import Qtng.General.Run
import Qtng.General.Map
import Qtng.General.BigEndian
import Qtng.General.Runs
import Qtng.General.Segments
import Qtng.Locks.Semaphore
import Qtng.Locks.SemaphoreRun
import Qtng.Locks.Permits
import Qtng.Locks.Lock
import Qtng.Locks.Wakeup
import Qtng.Locks.Deadlock
import Qtng.Locks.Condition
import Qtng.Locks.Notification
import Qtng.Locks.Queue
import Qtng.Locks.QueueLatches
import Qtng.Locks.QueueDelivery
import Qtng.Channel.DataChannel
import Qtng.Channel.SubChannels
import Qtng.Channel.Stations
import Qtng.Channel.Agreement
import Qtng.Channel.Gate
import Qtng.Channel.FlowControl
import Qtng.Channel.Routing
import Qtng.MultiStream.Slave
import Qtng.MultiStream.Resize
import Qtng.Http.HpackTables
import Qtng.Http.Hpack
import Qtng.Http.HpackRoundTrip
import Qtng.Http.Session
import Qtng.Http.SessionRun
import Qtng.Http.SessionSteps
import Qtng.Http.StreamOrder
import Qtng.Http.Survivors
import Qtng.Http.SendWindow
import Qtng.Http.HeaderSync
import Qtng.Quic.Varint
import Qtng.Quic.Frame
import Qtng.Quic.Ack
import Qtng.Quic.Recovery
import Qtng.Quic.AckRoundTrip
import Qtng.Quic.Retransmit
import Qtng.Quic.Stream
import Qtng.Quic.Reassembly
import Qtng.Quic.StreamWindow
import Qtng.Quic.Crypto
import Qtng.Quic.Send
import Qtng.Quic.Nonce
import Qtng.Quic.KeyRotation
import Qtng.Quic.FrameRoundTrip
import Qtng.Quic.Protection
import Qtng.Quic.Retry
import Qtng.Quic.DataLimit
import Qtng.Quic.SendLimit
import Qtng.Utp.Stream
import Qtng.Utp.Outgoing
import Qtng.Utp.Acknowledge
import Qtng.Utp.Delivery
import Qtng.Utp.EndOfStream
import Qtng.Utp.Window
import Qtng.Noise.ReplayCounter
import Qtng.WebSocket.Frame
import Qtng.General.Settle
import Qtng.WebSocket.Receive
import Qtng.WebSocket.Messages
import Qtng.WebSocket.RoundTrip
import Qtng.WebSocket.Exchange
import Qtng.Locks.QueueMoves
import Qtng.WebSocket.Connection
import Qtng.WebSocket.Delivery
import Qtng.WebSocket.Outbox
import Qtng.WebSocket.Release
import Qtng.General.Path
import Qtng.Rpc.Directory
import Qtng.General.Decimal
import Qtng.Bencode.Stream
import Qtng.Bencode.Text
import Qtng.Bencode.RoundTrip
import Qtng.Torrent.Meta
import Qtng.Torrent.Arithmetic
import Qtng.Torrent.InfoDict
import Qtng.Torrent.Storage
import Qtng.Torrent.Containment
import Qtng.General.Reader
import Qtng.MsgPack.Stream
import Qtng.MsgPack.Timestamp
import Qtng.MsgPack.Scalars
import Qtng.MsgPack.Costs
import Qtng.MsgPack.Shape
import Qtng.MsgPack.RoundTrip
import Qtng.MsgPack.Truncation
import Qtng.General.RingMemory
import Qtng.Utils.SliceRingBuffer
import Qtng.Http.Huffman
import Qtng.Quic.InFlight
import Qtng.Quic.LossDetection
import Qtng.Channel.Numbers
import Qtng.Http.HpackBounds
import Qtng.Coroutine.EventLoopEv
