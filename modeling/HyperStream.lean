import HyperStream.Transition
import HyperStream.Refinement
import HyperStream.Monitor
import HyperStream.Fifo
import HyperStream.Transducer
import HyperStream.Traced
import HyperStream.Rounding
import HyperStream.Printf
import HyperStream.Channel
import HyperStream.Enabled
import HyperStream.Wakeup
import HyperStream.Clients
import HyperStream.ChannelLaws
import HyperStream.PopContract
import HyperStream.Link
import HyperStream.Media
import HyperStream.Worker
import HyperStream.Ingest
import HyperStream.Codec
import HyperStream.Process
import HyperStream.Transport
import HyperStream.Controller
import HyperStream.Startup
import HyperStream.StartupLaws
import HyperStream.Sequential
import HyperStream.Muxing
import HyperStream.Stalled
import HyperStream.Termination
import HyperStream.Driven
import HyperStream.Lifetime
import HyperStream.Shutdown
import HyperStream.EndMark
import HyperStream.Occupancy
import HyperStream.Isolation
import HyperStream.Flush
import HyperStream.Refusal
import HyperStream.Routing
import HyperStream.Timing
import HyperStream.Sound
import HyperStream.Handover
import HyperStream.Manned
import HyperStream.Rest
import HyperStream.Completion
import HyperStream.AtomicQueue
import HyperStream.Unwaited
import HyperStream.Backlog
import HyperStream.WindDown
import HyperStream.Lossy
import HyperStream.Views
import HyperStream.GraphText
import HyperStream.Recovery
