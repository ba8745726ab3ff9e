import Utcp.Api
import Utcp.Library.Traces

/-!
The small steps a critical section is made of, grouped by the part of the stack
they belong to. `In` tells which segments are processed, and `Ex` with which
values of `t_rxtshift` the retransmission timer may expire.
-/

namespace Utcp.Steps

open Traces
open Utcp.Tcp
open Utcp.Utils
open Utcp.Output
open Utcp.CongestionControl
open Utcp.Timers
open Utcp.Input
open Utcp.Api

/-- `data`, not empty, is the payload of `seg` from the sequence number `seq` on. -/
def Carries (seg : TcpSegment) (seq : U32) (data : List U8) : Prop :=
  ∃ skip : U32, skip.toNat < (payload seg).length ∧ seq = seg.hdr.thSeq + skip ∧
    data = (payload seg).drop skip.toNat

theorem Carries.length_pos {seg : TcpSegment} {seq : U32} {data : List U8}
    (h : Carries seg seq data) : 0 < data.length ∧ data.length ≤ (payload seg).length := by
  obtain ⟨skip, hskip, -, rfl⟩ := h
  rw [List.length_drop]
  omega

/-- The output function and the two flags that ask for an ACK. -/
inductive OutputStep : Tcb → List Event → Tcb → Prop
  | flags (tcb : Tcb) (tfAcknow tfDelack : Bool) : OutputStep tcb [] { tcb with tfAcknow, tfDelack }
  | delack (tcb : Tcb) (ticks : U16) : OutputStep tcb [] (setTimer tcb .delack ticks)
  | bare (tcb : Tcb) (timeUs : U64) (hlen : outputLength tcb = 0)
      (hsyn : sendingNewSynFin (tcpOutflags tcb.state) tcb = false) :
      OutputStep tcb
        [.freeSpace (bufUsed tcb) tcb.oooBytes,
          .sent .output timeUs
            (buildSegment timeUs tcb tcb.sndNxt (tcpOutflags tcb.state) 0)] tcb
  | advance (tcb : Tcb) (timeUs : U64) (newSynFin : Bool)
      (hsyn : sendingNewSynFin (tcpOutflags tcb.state) tcb = newSynFin)
      (hadvance : outputLength tcb > 0 ∨ newSynFin) :
      OutputStep tcb
        [.freeSpace (bufUsed tcb) tcb.oooBytes,
          .sent .output timeUs
            (buildSegment timeUs tcb tcb.sndNxt (tcpOutflags tcb.state) (outputLength tcb))]
        (advanceSndNxt tcb (outputLength tcb) newSynFin)

/-- The receive buffer and the reassembly queue. -/
inductive ReceiveStep (In : TcpSegment → Prop) : Tcb → List Event → Tcb → Prop
  | space (tcb : Tcb) : ReceiveStep In tcb [.freeSpace (bufUsed tcb) tcb.oooBytes] tcb
  | accept (tcb : Tcb) (seg : TcpSegment) (data : List U8) (hseg : In seg)
      (hdata : Carries seg tcb.rcvNxt data)
      (hroom : data.length ≤ (recvBufSize - bufUsed tcb - tcb.oooBytes).toNat) :
      ReceiveStep In tcb [.accepted] (acceptBytes tcb data)
  | insert (tcb : Tcb) (seg : TcpSegment) (entry : TcpqEntry) (before after : List TcpqEntry)
      (hseg : In seg) (hdata : Carries seg entry.seq entry.data)
      (hlen : entry.len = BitVec.ofNat 32 entry.data.length)
      (hqueue : tcb.oooHead = before ++ after)
      (hroom : ¬ entry.len > recvBufSize - bufUsed tcb - tcb.oooBytes) :
      ReceiveStep In tcb []
        { tcb with
          oooHead := before ++ entry :: after
          oooBytes := tcb.oooBytes + entry.len }
  | absorb (tcb : Tcb) (entry : TcpqEntry) (before after : List TcpqEntry)
      (hqueue : tcb.oooHead = before ++ entry :: after) :
      ReceiveStep In tcb []
        { tcb with oooHead := before ++ after, oooBytes := tcb.oooBytes - entry.len }
  | trim (tcb : Tcb) (entry : TcpqEntry) (before after : List TcpqEntry) (cut : U32)
      (hqueue : tcb.oooHead = before ++ entry :: after)
      (hstart : seqLt entry.seq cut) (hend : seqLeq (entryEnd entry) cut = false) :
      ReceiveStep In tcb [.trim (cut - entry.seq) entry.len]
        { tcb with
          oooHead := before ++ trimEntry entry (cut - entry.seq) :: after
          oooBytes := tcb.oooBytes - (cut - entry.seq) }
  | drain (tcb : Tcb) (entry : TcpqEntry) (rest : List TcpqEntry)
      (hqueue : tcb.oooHead = entry :: rest) (hseq : entry.seq = tcb.rcvNxt)
      (hroom : ¬ entry.len > recvBufSize - bufUsed tcb) :
      ReceiveStep In tcb [.freeSpace (bufUsed tcb) 0]
        { acceptBytes tcb entry.data with
          oooHead := rest
          oooBytes := tcb.oooBytes - entry.len }
  | drainFull (tcb : Tcb) (entry : TcpqEntry) (rest : List TcpqEntry)
      (hqueue : tcb.oooHead = entry :: rest)
      (hroom : entry.len > recvBufSize - bufUsed tcb) :
      ReceiveStep In tcb [.freeSpace (bufUsed tcb) 0, .drainFull] tcb

/-- The data half with the output it causes. -/
inductive DataStep (In : TcpSegment → Prop) : Tcb → List Event → Tcb → Prop
  | output {tcb tcb' : Tcb} {log : List Event} (h : OutputStep tcb log tcb') :
      DataStep In tcb log tcb'
  | receive {tcb tcb' : Tcb} {log : List Event} (h : ReceiveStep In tcb log tcb') :
      DataStep In tcb log tcb'

/-- The acknowledgment half, with congestion control. -/
inductive AckStep (In : TcpSegment → Prop) : Tcb → List Event → Tcb → Prop
  | options (tcb : Tcb) (env : Env) (seg : TcpSegment) (hseg : In seg) :
      AckStep In tcb [] (processWindowOption env seg tcb)
  | ack (tcb : Tcb) (seg : TcpSegment) (hseg : In seg) (hack : validAck tcb seg.hdr.thAck) :
      AckStep In tcb [] (acceptAck tcb seg.hdr)
  | window (tcb : Tcb) (seg : TcpSegment) (hseg : In seg) (hack : seg.hdr.thAck = tcb.sndUna) :
      AckStep In tcb [] { tcb with sndWnd := getScaledWin tcb seg.hdr }
  | sample (tcb : Tcb) (rttUs : U32) :
      AckStep In tcb [] { utcpXmitTimer tcb rttUs with tRtt := 0 }
  | rearm (tcb : Tcb) (env : Env) :
      AckStep In tcb (rearmRexmt env tcb).log (rearmRexmt env tcb).tcb
  | congestion (tcb : Tcb) (cwnd ssthresh recover tRtt : U32) (caState : TcpCaState)
      (tDupacks : U8) :
      AckStep In tcb [] { tcb with cwnd, ssthresh, recover, tRtt, caState, tDupacks }
  | retransmit (tcb : Tcb) (reading : Reading) :
      AckStep In tcb (utcpRetransmitSegment reading tcb tcb.sndUna) tcb

/-- The acknowledgment half with the output it causes. -/
inductive ControlStep (In : TcpSegment → Prop) : Tcb → List Event → Tcb → Prop
  | output {tcb tcb' : Tcb} {log : List Event} (h : OutputStep tcb log tcb') :
      ControlStep In tcb log tcb'
  | ack {tcb tcb' : Tcb} {log : List Event} (h : AckStep In tcb log tcb') :
      ControlStep In tcb log tcb'

/-- The block after the retransmission timer expired, before `utcp_output`. -/
def expireRexmt (env : Env) (tcb : Tcb) (recover : U32) : Tcb :=
  let tcb := setTimer tcb .rexmt (tcb.tTimer .rexmt - 1)
  ccTimeout { goBack env tcb with recover := recover } (flightSize tcb)

theorem ccTimeout_eq (tcb : Tcb) (flight : U32) :
    ∃ ssthresh, ccTimeout tcb flight =
      { tcb with ssthresh, cwnd := mss, caState := .loss } := by
  refine ⟨(ccTimeout tcb flight).ssthresh, ?_⟩
  rw [ccTimeout]

theorem expireRexmt_eq (env : Env) (tcb : Tcb) (recover : U32) :
    ∃ tTimer ssthresh, expireRexmt env tcb recover =
      { tcb with
        tTimer, ssthresh, recover
        tRxtshift := tcb.tRxtshift + 1
        sndNxt := tcb.sndUna
        tRtt := 0
        cwnd := mss
        caState := .loss } := by
  obtain ⟨ssthresh, heq⟩ := ccTimeout_eq
    { goBack env (setTimer tcb .rexmt (tcb.tTimer .rexmt - 1)) with recover := recover }
    (flightSize (setTimer tcb .rexmt (tcb.tTimer .rexmt - 1)))
  refine ⟨(goBack env (setTimer tcb .rexmt (tcb.tTimer .rexmt - 1))).tTimer, ssthresh, ?_⟩
  rw [expireRexmt, heq, goBack]
  rfl

/-- The clock. -/
inductive TimerStep (Ex : U8 → Prop) : Tcb → List Event → Tcb → Prop
  | clock (tcb : Tcb) (tIdle tRtt : U32) : TimerStep Ex tcb [] { tcb with tIdle, tRtt }
  | countDown (tcb : Tcb) (timer : Timer) (hticks : 1 < (tcb.tTimer timer).toInt) :
      TimerStep Ex tcb [] (setTimer tcb timer (tcb.tTimer timer - 1))
  | rexmt (tcb : Tcb) (env : Env) (recover : U32) (hticks : tcb.tTimer .rexmt = 1)
      (hshift : Ex tcb.tRxtshift) :
      TimerStep Ex tcb [.expired .rexmt, .backoff (tcb.tRxtshift + 1).toNat]
        (expireRexmt env tcb recover)
  | other (tcb : Tcb) (timer : Timer) (hticks : tcb.tTimer timer = 1) (htimer : timer ≠ .rexmt) :
      TimerStep Ex tcb [.expired timer] (setTimer tcb timer (tcb.tTimer timer - 1))

/-- The clock with the output it causes. -/
inductive ClockStep (Ex : U8 → Prop) : Tcb → List Event → Tcb → Prop
  | output {tcb tcb' : Tcb} {log : List Event} (h : OutputStep tcb log tcb') :
      ClockStep Ex tcb log tcb'
  | timer {tcb tcb' : Tcb} {log : List Event} (h : TimerStep Ex tcb log tcb') :
      ClockStep Ex tcb log tcb'

/-- The handshake. -/
inductive OpenStep (In : TcpSegment → Prop) : Tcb → List Event → Tcb → Prop
  | connect (tcb : Tcb) (ip : U32) (port : U16) (hstate : tcb.state = .closed) :
      OpenStep In tcb []
        { tcb with dstIp := ip, dstPort := port, dstUdpPort := 1970, state := .synSent }
  | syn (tcb : Tcb) (env : Env) (seg : TcpSegment) (peer : Peer) (hseg : In seg)
      (hstate : tcb.state = .listen) (hflag : hasFlag seg.hdr.thFlags thSyn) :
      OpenStep In tcb [] (acceptSyn env tcb seg peer)
  | synAck (tcb : Tcb) (env : Env) (seg : TcpSegment) (hseg : In seg)
      (hstate : tcb.state = .synSent) (hawaited : isAwaitedSynAck tcb seg.hdr) :
      OpenStep In tcb [] (acceptSynAck env tcb seg)
  | finalAck (tcb : Tcb) (seg : TcpSegment) (hseg : In seg)
      (hstate : tcb.state = .synRecv) (hcompletes : completesHandshake tcb seg.hdr) :
      OpenStep In tcb [] (acceptFinalAck tcb seg)

/-- The states in which `handle_received_data` runs. -/
def Receiving (tcb : Tcb) : Prop := tcb.state = .synRecv ∨ tcb.state = .established

inductive TcbStep (In : TcpSegment → Prop) (Ex : U8 → Prop) : Tcb → List Event → Tcb → Prop
  | output {tcb tcb' : Tcb} {log : List Event} (h : OutputStep tcb log tcb') :
      TcbStep In Ex tcb log tcb'
  | receive {tcb tcb' : Tcb} {log : List Event} (hstate : Receiving tcb)
      (h : ReceiveStep In tcb log tcb') : TcbStep In Ex tcb log tcb'
  | ack {tcb tcb' : Tcb} {log : List Event} (hstate : Receiving tcb)
      (h : AckStep In tcb log tcb') : TcbStep In Ex tcb log tcb'
  | timer {tcb tcb' : Tcb} {log : List Event} (h : TimerStep Ex tcb log tcb') :
      TcbStep In Ex tcb log tcb'
  | opening {tcb tcb' : Tcb} {log : List Event} (h : OpenStep In tcb log tcb') :
      TcbStep In Ex tcb log tcb'

/-- The steps of an endpoint: those of its control block, and the application. -/
inductive EndpointStep (In : TcpSegment → Prop) (Ex : U8 → Prop) :
    Endpoint → List Event → Endpoint → Prop
  | tcb {e : Endpoint} {log : List Event} {tcb' : Tcb} (h : TcbStep In Ex e.tcb log tcb') :
      EndpointStep In Ex e log { e with tcb := tcb', history := e.history ++ log }
  | call (e : Endpoint) (bytes : List U8) (hstate : e.tcb.state = .established)
      (hpending : e.pending = []) : EndpointStep In Ex e [] { e with pending := bytes }
  | write (e : Endpoint) (n : Nat) (hstate : e.tcb.state = .established)
      (hroom : n ≤ (sendFreeSpace e.tcb).toNat) (hn : n ≤ e.pending.length) :
      EndpointStep In Ex e []
        { e with
          tcb := writeChunk e.tcb (e.pending.take n)
          written := e.written ++ e.pending.take n
          pending := e.pending.drop n }
  | read (e : Endpoint) (n : Nat) (hstate : e.tcb.state = .established)
      (hn : n ≤ (bufUsed e.tcb).toNat) :
      EndpointStep In Ex e []
        { e with
          tcb := takeBytes e.tcb n
          delivered := e.delivered ++ ringBufRead e.tcb.recvBuf recvBufSize e.tcb.recvBufHead n }

end Utcp.Steps
