import TokioKcp.Lib.Exec
import TokioKcp.Error
import TokioKcp.Fec.Packet
import TokioKcp.Lib.FinMap
import TokioKcp.Lib.Runs
import TokioKcp.Fec.Encoder
import TokioKcp.Fec.Numbering
import TokioKcp.Fec.NumberingInvariant
import TokioKcp.Fec.Decoder
import TokioKcp.Fec.DecoderStep
import TokioKcp.Fec.DecoderBounds
import TokioKcp.Fec.Restore
import TokioKcp.Fec.Delivery
import TokioKcp.Fec.Tracking
import TokioKcp.Fec.RoundTrip
import TokioKcp.Fec.SpuriousRecovery
import TokioKcp.Fec.Wraparound
import TokioKcp.Fec.SmallCodecs
import TokioKcp.Config
import TokioKcp.Socket
import TokioKcp.SmallKcp
import TokioKcp.Socket.Readers
import TokioKcp.Session
import TokioKcp.Listener
import TokioKcp.Listener.Dispatch
import TokioKcp.Listener.Steps
import TokioKcp.Listener.Notifications
import TokioKcp.Listener.Duplicates
import TokioKcp.Lib.LinearCode
import TokioKcp.Fec.Disturbance
import TokioKcp.Socket.Decoding
import TokioKcp.Listener.ConvRewrite
import TokioKcp.Listener.Conversations
import TokioKcp.Lib.Loop
import TokioKcp.Lib.MessageReader
import TokioKcp.Stream
import TokioKcp.Socket.Calls
import TokioKcp.Socket.Wakers
import TokioKcp.Stream.Reading
import TokioKcp.Stream.EndOfFile
import TokioKcp.Lib.Fragments
import TokioKcp.Socket.Sending
import TokioKcp.SmallSender
import TokioKcp.Socket.Backlog
import TokioKcp.Socket.Handshake
import TokioKcp.Stream.Writing
import TokioKcp.Lib.Sweep
import TokioKcp.Scheduler
import TokioKcp.Scheduler.FinalizedOnce
import TokioKcp.Session.ClientInput
import TokioKcp.Session.Expiry
import TokioKcp.Config.AcceptedMtu
import TokioKcp.Config.ShardCounts
import TokioKcp.Socket.Payloads
import TokioKcp.Session.Acknowledgements
import TokioKcp.Lib.Population
import TokioKcp.Session.Decoders
import TokioKcp.Listener.Acts
import TokioKcp.Listener.Sessions
import TokioKcp.Listener.Panics
import TokioKcp.Listener.Lifecycle
import TokioKcp.Listener.OpenSessions
import TokioKcp.Listener.HandOver
import TokioKcp.Fec.Gathering
import TokioKcp.Output
import TokioKcp.Transport
import TokioKcp.Travel
import TokioKcp.Connection
import TokioKcp.Lib.Simulation
import TokioKcp.Scheduler.Threads
import TokioKcp.Listener.Shutdown
import TokioKcp.Pair
import TokioKcp.Peers
import TokioKcp.Listener.Isolation
import TokioKcp.Usage
import TokioKcp.Service
import TokioKcp.Negotiation
