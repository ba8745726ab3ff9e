import Mathlib.Algebra.Ring.Nat
import Mathlib.Data.List.Basic

/-!
The data the stack works on: the header of a segment, the transmission control
block of a socket, and what a critical section does that the outside can see.
-/

namespace Utcp.Tcp

abbrev U8 := BitVec 8
abbrev U16 := BitVec 16
abbrev U32 := BitVec 32
abbrev U64 := BitVec 64

def mss : U32 := 1400

/-- `IW_CALC(MSS)`: the initial congestion window, in segments. -/
def iw : U32 := if mss > 2190 then 2 else if mss > 1095 then 3 else 4

def sendBufSize : U32 := 1048576

def recvBufSize : U32 := 1048576

@[simp] theorem mss_toNat : mss.toNat = 1400 := rfl

@[simp] theorem sendBufSize_toNat : sendBufSize.toNat = 1048576 := rfl

@[simp] theorem recvBufSize_toNat : recvBufSize.toNat = 1048576 := rfl

def thFin : U8 := 0x01
def thSyn : U8 := 0x02
def thRst : U8 := 0x04
def thAck : U8 := 0x10

def tcpoptEol : U8 := 0
def tcpoptNop : U8 := 1
def tcpoptWindow : U8 := 3
def tcpolenWindow : U8 := 3
def tcpoptTimestamp : U8 := 8
def tcpolenTimestamp : U8 := 10

/-- `sizeof(tcphdr)`. -/
def sizeofTcpHdr : Nat := 20

/-- The fixed header, in host order. -/
structure TcpHdr where
  thSport : U16
  thDport : U16
  thSeq : U32
  thAck : U32
  thOffFlags : U8
  thFlags : U8
  thWin : U16
  thSum : U16
  thUrp : U16
deriving DecidableEq, Repr

/-- A segment: the fixed header and everything behind it, options first. -/
structure TcpSegment where
  hdr : TcpHdr
  data : List U8
deriving DecidableEq, Repr

inductive TcpState
  | closed
  | listen
  | synSent
  | synRecv
  | established
  | closeWait
  | finWait1
  | closing
  | lastAck
  | finWait2
  | timeWait
deriving DecidableEq, Repr

inductive TcpCaState
  | open
  | disorder
  | cwr
  | recovery
  | loss
deriving DecidableEq, Repr

/-- An event for congestion control, with the arguments that go with it. -/
inductive CcEventArgs
  | init
  | ack (ackedBytes rttUs : U32)
  | dupAck (totalDups : U32)
  | timeout (flightSize : U32)
deriving DecidableEq, Repr

/-- The congestion-control modules `cc_ops` can point to. -/
inductive TcpCongestionOps
  | tahoe
  | reno
  | newReno
  | lstmReno
deriving DecidableEq, Repr

/-- The indices of `t_timer`. -/
inductive Timer
  | rexmt
  | persist
  | keep
  | twoMsl
  | delack
deriving DecidableEq, Repr

/-- The order in which `utcp_slowtimo_thread` visits the timers. -/
def Timer.all : List Timer := [.rexmt, .persist, .keep, .twoMsl, .delack]

theorem Timer.mem_all (timer : Timer) : timer ∈ Timer.all := by
  cases timer <;> decide

/-- One entry of the reassembly queue; `data` are the bytes of its heap copy
that still belong to it. -/
structure TcpqEntry where
  seq : U32
  len : U32
  data : List U8
deriving DecidableEq, Repr

/-- The transmission control block. A ring buffer is its memory, read and
written only below its size. The two flags of `t_flags` that the code uses are
fields of their own. -/
structure Tcb where
  srcIp : U32
  dstIp : U32
  srcPort : U16
  dstPort : U16
  dstUdpPort : U16
  state : TcpState
  sndUna : U32
  sndMax : U32
  sndNxt : U32
  iss : U32
  irs : U32
  rcvNxt : U32
  rcvWnd : U32
  sndWnd : U32
  tfAcknow : Bool
  tfDelack : Bool
  cwnd : U32
  ssthresh : U32
  tDupacks : U8
  recover : U32
  caState : TcpCaState
  ccOps : TcpCongestionOps
  tTimer : Timer → U16
  tIdle : U32
  tRtt : U32
  tRtseq : U32
  tSrtt : U32
  tRttvar : U32
  tRxtcur : U32
  tRxtshift : U8
  tsEnabled : Bool
  tsRecent : U32
  sendBuf : Nat → U8
  sendBufHead : U32
  sendBufTail : U32
  recvBuf : Nat → U8
  recvBufHead : U32
  recvBufTail : U32
  oooHead : List TcpqEntry
  oooBytes : U32
  sndScale : U8
  rcvScale : U8
  scaleEnabled : Bool
  minRttSeenUs : U64

/-- What one call of `utcp_send_segment` takes from outside: the clock in
microseconds, and whether `malloc` succeeds. -/
structure Reading where
  timeUs : U64
  alloc : Bool

/-- What one critical section takes from outside. Every field is arbitrary, so
that a result about all of them is a result about every clock, every pattern of
failed allocations and every content of the memory next to the objects read. -/
structure Env where
  /-- the clock where `handle_received_data` samples the round trip -/
  nowUs : U64
  /-- whether `insert_ooo_segment` gets its queue entry -/
  queueAlloc : Bool
  /-- for `utcp_retransmit_segment` -/
  retransmit : Reading
  /-- for the turns of `utcp_output` when congestion control calls it -/
  burst : Nat → Reading
  /-- for the turns of `utcp_output` otherwise -/
  output : Nat → Reading
  /-- the receive buffer as the previous datagram left it, after the header -/
  stale : Nat → U8
  /-- the `int`s in memory behind `tcp_backoff` -/
  beyond : Nat → U32
  /-- `lstm_client_fired()` -/
  fired : Bool

/-- The clock stands at `timeUs`, every allocation succeeds, and the memory next
to the objects holds zeros. -/
def Env.still (timeUs : U64) : Env where
  nowUs := timeUs
  queueAlloc := true
  retransmit := ⟨timeUs, true⟩
  burst := fun _ => ⟨timeUs, true⟩
  output := fun _ => ⟨timeUs, true⟩
  stale := fun _ => 0
  beyond := fun _ => 0
  fired := false

/-- Which function put a segment on the wire. -/
inductive Origin
  | output
  | retransmit
deriving DecidableEq, Repr

/-- What a critical section does besides changing the control block. -/
inductive Event
  /-- `sendto` was called, with the clock read for the segment -/
  | sent (origin : Origin) (timeUs : U64) (seg : TcpSegment)
  /-- in-order data of a segment went into the receive buffer -/
  | accepted
  /-- the space of the receive buffer, less what it holds and what is reserved,
  was computed -/
  | freeSpace (used reserved : U32)
  /-- `tcp_backoff[index]` was read -/
  | backoff (index : Nat)
  /-- a queue entry of `len` bytes lost its first `overlap` bytes -/
  | trim (overlap len : U32)
  /-- a queued entry did not fit the receive buffer -/
  | drainFull
  /-- `utcp_timers` ran for a timer -/
  | expired (timer : Timer)
deriving DecidableEq, Repr

/-- The control block a piece of code leaves and what it did. -/
structure Out where
  tcb : Tcb
  log : List Event

/-- The segments among the events, in order. -/
def segments (log : List Event) : List TcpSegment :=
  log.filterMap fun
    | .sent _ _ seg => some seg
    | _ => none

@[simp] theorem segments_nil : segments [] = [] := rfl

@[simp] theorem segments_append (log log' : List Event) :
    segments (log ++ log') = segments log ++ segments log' :=
  List.filterMap_append

theorem mem_segments {log : List Event} {seg : TcpSegment} :
    seg ∈ segments log ↔ ∃ origin timeUs, Event.sent origin timeUs seg ∈ log := by
  simp only [segments, List.mem_filterMap]
  constructor
  · rintro ⟨event, hevent, hseg⟩
    cases event with
    | sent origin timeUs seg' =>
        obtain rfl : seg' = seg := by simpa using hseg
        exact ⟨origin, timeUs, hevent⟩
    | _ => simp at hseg
  · rintro ⟨origin, timeUs, hsent⟩
    exact ⟨.sent origin timeUs seg, hsent, rfl⟩

end Utcp.Tcp
