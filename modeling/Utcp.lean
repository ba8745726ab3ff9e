import Utcp.Network
import Utcp.Steps
import Utcp.Library.SerialNumbers
import Utcp.Library.Slices
import Utcp.Library.RingMemory
import Utcp.Library.TransitionSystem
import Utcp.Sections
import Utcp.Frames
import Utcp.Accounting
import Utcp.Library.Ranges
import Utcp.Reassembly
import Utcp.Buffers
import Utcp.Receiver
import Utcp.OptionReads
import Utcp.Inference
import Utcp.SendLoop
import Utcp.Retransmission
import Utcp.Opening
import Utcp.Timeouts
import Utcp.Estimator
import Utcp.WindowGrowth
import Utcp.Preemption
import Utcp.OptionWalks
import Utcp.SectionCases
import Utcp.WindowScale
import Utcp.Demultiplexing
import Utcp.Firings
import Utcp.Framing
import Utcp.Handshake
import Utcp.Karn
import Utcp.Reopening
import Utcp.OwedAcks
import Utcp.Stalls
import Utcp.Rings
import Utcp.Backoff
import Utcp.Sender
import Utcp.Acknowledging
import Utcp.Library.Streams
import Utcp.Reliable
import Utcp.FileTransfer
import Utcp.Rearming
import Utcp.Timestamps
import Utcp.Lifecycle
import Utcp.Divisions
import Utcp.Alignment
import Utcp.LongRuns
import Utcp.Recovery
import Utcp.Deadlock
import Utcp.FlowControl
import Utcp.Floods
