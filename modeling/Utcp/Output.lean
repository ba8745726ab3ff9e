import Utcp.Utils

/-!
`utcp_output.c`: building one segment, the sending loop, and the single
retransmission that congestion control asks for.
-/

namespace Utcp.Output

open Utcp.Tcp
open Utcp.Utils

/-- The table `tcp_outflags`. -/
def tcpOutflags : TcpState → U8
  | .closed => thRst ||| thAck
  | .listen => 0
  | .synSent => thSyn
  | .synRecv => thSyn ||| thAck
  | .established => thAck
  | .closeWait => thAck
  | .finWait1 => thFin ||| thAck
  | .closing => thFin ||| thAck
  | .lastAck => thFin ||| thAck
  | .finWait2 => thAck
  | .timeWait => thAck

/-- The four bytes of a 32-bit value, most significant first. -/
def bytesOf (v : U32) : List U8 :=
  [(v >>> 24).setWidth 8, (v >>> 16).setWidth 8, (v >>> 8).setWidth 8, v.setWidth 8]

/-- The timestamp option with its two leading no-operations. -/
def timestampOption (tsval tsecr : U32) : List U8 :=
  [tcpoptNop, tcpoptNop, tcpoptTimestamp, tcpolenTimestamp] ++ bytesOf tsval ++ bytesOf tsecr

/-- The option bytes of an outgoing segment: sixteen with a SYN, else twelve. -/
def sendOptions (timeUs : U64) (tcb : Tcb) (flags : U8) : List U8 :=
  let timestamp := timestampOption (timeUs.setWidth 32) tcb.tsRecent
  if hasFlag flags thSyn then
    [tcpoptNop, tcpoptWindow, tcpolenWindow, tcb.rcvScale] ++ timestamp
  else
    timestamp

/-- The free space a segment advertises, before scaling. -/
def currentFreeSpace (tcb : Tcb) : U32 :=
  recvBufSize - bufUsed tcb - tcb.oooBytes

/-- The segment `utcp_send_segment` puts together. -/
def buildSegment (timeUs : U64) (tcb : Tcb) (seq : U32) (flags : U8) (dataLength : U32) :
    TcpSegment :=
  let options := sendOptions timeUs tcb flags
  let headerWords : U8 := BitVec.ofNat 8 ((sizeofTcpHdr + options.length) / 4)
  let logicalOffset := seq - tcb.iss - 1
  { hdr :=
      { thSport := tcb.srcPort
        thDport := tcb.dstPort
        thSeq := seq
        thAck := tcb.rcvNxt
        thOffFlags := headerWords <<< 4 ||| (flags &&& 0x0F)
        thFlags := flags
        thWin := setScaledWin tcb flags (currentFreeSpace tcb)
        thSum := 0
        thUrp := 0 }
    data := options ++ ringBufRead tcb.sendBuf sendBufSize logicalOffset dataLength.toNat }

/-- `utcp_send_segment`; `none` where the allocation fails and it returns -1. -/
def utcpSendSegment (origin : Origin) (reading : Reading) (tcb : Tcb) (seq : U32) (flags : U8)
    (dataLength : U32) : Option (List Event) :=
  if reading.alloc then
    some
      [.freeSpace (bufUsed tcb) tcb.oooBytes,
        .sent origin reading.timeUs (buildSegment reading.timeUs tcb seq flags dataLength)]
  else none

/-- The bytes written and not yet sent from `seq` on, as
`utcp_retransmit_segment` computes them. -/
def retransmitBuffered (tcb : Tcb) (seq : U32) : U32 :=
  let dataBytesSent := if seq > tcb.iss then seq - tcb.iss - 1 else 0
  if tcb.sendBufTail > dataBytesSent then tcb.sendBufTail - dataBytesSent else 0

def utcpRetransmitSegment (reading : Reading) (tcb : Tcb) (seq : U32) : List Event :=
  if tcb.state ≠ .established then []
  else
    let flags := tcpOutflags tcb.state
    let bufferedData := retransmitBuffered tcb seq
    let dataLength := if bufferedData < mss then bufferedData else mss
    (utcpSendSegment .retransmit reading tcb seq flags dataLength).getD []

/-- The bytes written and not yet sent, as `utcp_output` computes them. -/
def outputBuffered (tcb : Tcb) : U32 :=
  let dataBytesSent := if seqGt tcb.sndNxt tcb.iss then tcb.sndNxt - tcb.iss - 1 else 0
  if tcb.sendBufTail > dataBytesSent then tcb.sendBufTail - dataBytesSent else 0

/-- `send_window`: the smaller of the peer's window and `cwnd`. -/
def sendWindow (tcb : Tcb) : U32 :=
  if tcb.sndWnd < tcb.cwnd then tcb.sndWnd else tcb.cwnd

/-- How much payload the next segment of `utcp_output` gets. -/
def outputLength (tcb : Tcb) : U32 :=
  if tcb.state = .established then
    let unackedDataInFlight := tcb.sndNxt - tcb.sndUna
    if sendWindow tcb > unackedDataInFlight then
      let canSend := sendWindow tcb - unackedDataInFlight
      let dataLength := if outputBuffered tcb < canSend then outputBuffered tcb else canSend
      let dataLength := if dataLength > mss then mss else dataLength
      -- Nagle: nothing below a full segment while data is in flight
      if dataLength > 0 ∧ dataLength < mss ∧ unackedDataInFlight > 0 then 0 else dataLength
    else 0
  else 0

/-- Whether the segment would carry a SYN or FIN never sent before. -/
def sendingNewSynFin (flags : U8) (tcb : Tcb) : Bool :=
  hasFlag flags (thSyn ||| thFin) && tcb.sndNxt == tcb.sndMax

def setTimer (tcb : Tcb) (timer : Timer) (ticks : U16) : Tcb :=
  { tcb with tTimer := fun t => if t = timer then ticks else tcb.tTimer t }

/-- `t_flags |= TF_ACKNOW`. -/
def setAcknow (tcb : Tcb) : Tcb := { tcb with tfAcknow := true }

/-- An outbound segment carries our latest `rcv_nxt`: drop a delayed ACK. -/
def cancelDelack (tcb : Tcb) : Tcb :=
  if tcb.tfDelack then setTimer { tcb with tfDelack := false } .delack 0 else tcb

/-- Karn's algorithm: time a segment of new data while no other is timed. -/
def startTiming (tcb : Tcb) (dataLength : U32) : Tcb :=
  if tcb.tRtt = 0 ∧ tcb.sndNxt = tcb.sndMax ∧ dataLength > 0 then
    { tcb with tRtseq := tcb.sndNxt, tRtt := 1 }
  else tcb

/-- Start the retransmission timer if it is not running. -/
def armRexmt (tcb : Tcb) : Tcb :=
  if tcb.tTimer .rexmt = 0 then setTimer tcb .rexmt (tcb.tRxtcur.setWidth 16) else tcb

def raiseSndMax (tcb : Tcb) : Tcb :=
  if seqGt tcb.sndNxt tcb.sndMax then { tcb with sndMax := tcb.sndNxt } else tcb

/-- What `utcp_output` does with the sequence numbers and the retransmission
timer after a segment that consumed sequence space. -/
def advanceSndNxt (tcb : Tcb) (dataLength : U32) (newSynFin : Bool) : Tcb :=
  let consumed := dataLength + if newSynFin then 1 else 0
  raiseSndMax (armRexmt { startTiming tcb dataLength with sndNxt := tcb.sndNxt + consumed })

/-- `snd_max` after the segment. -/
def nextSndMax (tcb : Tcb) (consumed : U32) : U32 :=
  if seqGt (tcb.sndNxt + consumed) tcb.sndMax then tcb.sndNxt + consumed else tcb.sndMax

theorem advanceSndNxt_eq (tcb : Tcb) (dataLength : U32) (newSynFin : Bool) :
    ∃ tTimer tRtt tRtseq,
      advanceSndNxt tcb dataLength newSynFin =
        { tcb with
          sndNxt := tcb.sndNxt + (dataLength + if newSynFin then 1 else 0)
          sndMax := nextSndMax tcb (dataLength + if newSynFin then 1 else 0)
          tTimer, tRtt, tRtseq } := by
  have htiming : ∃ tRtt tRtseq, startTiming tcb dataLength = { tcb with tRtt, tRtseq } := by
    unfold startTiming
    split
    · exact ⟨_, _, rfl⟩
    · exact ⟨tcb.tRtt, tcb.tRtseq, rfl⟩
  have harm : ∀ t : Tcb, ∃ tTimer, armRexmt t = { t with tTimer } := by
    intro t
    unfold armRexmt
    split
    · exact ⟨_, rfl⟩
    · exact ⟨t.tTimer, rfl⟩
  have hraise : ∀ t : Tcb,
      raiseSndMax t = { t with sndMax := if seqGt t.sndNxt t.sndMax then t.sndNxt else t.sndMax } := by
    intro t
    unfold raiseSndMax
    split <;> rfl
  obtain ⟨tRtt, tRtseq, htiming⟩ := htiming
  let consumed := dataLength + if newSynFin then 1 else 0
  obtain ⟨tTimer, harm⟩ := harm { tcb with tRtt, tRtseq, sndNxt := tcb.sndNxt + consumed }
  refine ⟨tTimer, tRtt, tRtseq, ?_⟩
  calc advanceSndNxt tcb dataLength newSynFin
      = raiseSndMax
          (armRexmt { startTiming tcb dataLength with sndNxt := tcb.sndNxt + consumed }) := rfl
    _ = raiseSndMax { tcb with tTimer, tRtt, tRtseq, sndNxt := tcb.sndNxt + consumed } := by
        rw [htiming]
        exact congrArg raiseSndMax harm
    _ = _ := hraise _

/-- One turn of the loop of `utcp_output`, and whether the loop goes on. -/
def outputTurn (reading : Reading) (flags : U8) (forceSend : Bool) (tcb : Tcb) : Out × Bool :=
  let dataLength := outputLength tcb
  let newSynFin := sendingNewSynFin flags tcb
  if dataLength = 0 ∧ !newSynFin ∧ !forceSend then (⟨tcb, []⟩, false)
  else
    let tcb := cancelDelack tcb
    match utcpSendSegment .output reading tcb tcb.sndNxt flags dataLength with
    | none => (⟨tcb, []⟩, false)
    | some log =>
        let tcb :=
          if dataLength > 0 ∨ newSynFin then advanceSndNxt tcb dataLength newSynFin else tcb
        (⟨tcb, log⟩, dataLength ≠ 0)

/-- The loop of `utcp_output`. `fuel` bounds the turns. -/
def outputLoop (readings : Nat → Reading) (flags : U8) : Nat → Nat → Bool → Tcb → Out
  | 0, _, _, tcb => ⟨tcb, []⟩
  | fuel + 1, turn, forceSend, tcb =>
      let (out, more) := outputTurn (readings turn) flags forceSend tcb
      if more then
        let rest := outputLoop readings flags fuel (turn + 1) false out.tcb
        ⟨rest.tcb, out.log ++ rest.log⟩
      else out

/-- `utcp_output`. A turn that goes on has used up a byte of the send window, so
the window bounds the turns. -/
def utcpOutput (readings : Nat → Reading) (tcb : Tcb) : Out :=
  let flags := tcpOutflags tcb.state
  let forceSend := tcb.tfAcknow
  outputLoop readings flags ((sendWindow tcb).toNat + 2) 0 forceSend { tcb with tfAcknow := false }

end Utcp.Output
