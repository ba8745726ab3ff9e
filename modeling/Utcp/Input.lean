import Utcp.Timers

/-!
`utcp_input.c`: the option walkers, the reassembly queue, and what an incoming
segment does in each state.
-/

namespace Utcp.Input

open Utcp.Tcp
open Utcp.Utils
open Utcp.Output
open Utcp.CongestionControl
open Utcp.Timers

/-- The bytes of the header, from its data offset. -/
def dataOffset (hdr : TcpHdr) : Nat := (hdr.thOffFlags >>> 4).toNat * 4

/-- The byte `i` places behind the fixed header in the receive buffer, which
past the datagram still holds an earlier one. -/
def byteAt (env : Env) (seg : TcpSegment) (i : Nat) : U8 := seg.data.getD i (env.stale i)

/-- The 32-bit value whose four bytes start at `i`. -/
def wordAt (mem : Nat → U8) (i : Nat) : U32 :=
  ((mem i).setWidth 32 <<< 24) ||| ((mem (i + 1)).setWidth 32 <<< 16) |||
    ((mem (i + 2)).setWidth 32 <<< 8) ||| (mem (i + 3)).setWidth 32

/-- The window scale option of `process_window_option`, well placed. -/
def takeWindow (mem : Nat → U8) (optPtr : Nat) (tcb : Tcb) : Tcb :=
  if mem optPtr = tcpoptWindow ∧ mem (optPtr + 1) = tcpolenWindow then
    { tcb with sndScale := mem (optPtr + 2), scaleEnabled := true }
  else tcb

/-- The timestamp option of `process_window_option`, well placed. -/
def takeTimestamp (mem : Nat → U8) (optPtr : Nat) (tcb : Tcb) : Tcb :=
  if mem optPtr = tcpoptTimestamp ∧ mem (optPtr + 1) = tcpolenTimestamp then
    { tcb with tsRecent := wordAt mem (optPtr + 2), tsEnabled := true }
  else tcb

/-- The loop of `process_window_option`. Every turn moves on, so the length of
the option area bounds the turns. -/
def walkOptions (mem : Nat → U8) (optEnd : Nat) : Nat → Nat → Tcb → Tcb
  | 0, _, tcb => tcb
  | fuel + 1, optPtr, tcb =>
      if optEnd ≤ optPtr then tcb
      else if mem optPtr = tcpoptEol then tcb
      else if mem optPtr = tcpoptNop then walkOptions mem optEnd fuel (optPtr + 1) tcb
      else
        let optLen := (mem (optPtr + 1)).toNat
        if optLen = 0 then tcb
        else if optEnd < optPtr + optLen then tcb
        else walkOptions mem optEnd fuel (optPtr + optLen)
            (takeTimestamp mem optPtr (takeWindow mem optPtr tcb))

/-- `process_window_option`. -/
def processWindowOption (env : Env) (seg : TcpSegment) (tcb : Tcb) : Tcb :=
  if dataOffset seg.hdr > sizeofTcpHdr then
    let optEnd := dataOffset seg.hdr - sizeofTcpHdr
    walkOptions (byteAt env seg) optEnd optEnd 0 tcb
  else tcb

/-- The loop of `extract_tsecr`. -/
def findTsecr (mem : Nat → U8) (endPtr : Nat) : Nat → Nat → Option U32
  | 0, _ => none
  | fuel + 1, p =>
      if endPtr ≤ p then none
      else if mem p = tcpoptEol then none
      else if mem p = tcpoptNop then findTsecr mem endPtr fuel (p + 1)
      else if endPtr ≤ p + 1 then none
      else
        let kind := mem p
        let len := mem (p + 1)
        if len.toNat < 2 ∨ endPtr < p + len.toNat then none
        else if kind = tcpoptTimestamp ∧ len = tcpolenTimestamp then some (wordAt mem (p + 6))
        else findTsecr mem endPtr fuel (p + len.toNat)

/-- `extract_tsecr`. -/
def extractTsecr (env : Env) (seg : TcpSegment) : Option U32 :=
  if dataOffset seg.hdr ≤ sizeofTcpHdr then none
  else
    let endPtr := dataOffset seg.hdr - sizeofTcpHdr
    findTsecr (byteAt env seg) endPtr endPtr 0

/-- The payload `deserialize_utcp_packet` finds behind the options. -/
def payload (seg : TcpSegment) : List U8 :=
  seg.data.drop (max (dataOffset seg.hdr) sizeofTcpHdr - sizeofTcpHdr)

/-- The end of an entry, one past its last sequence number. -/
def entryEnd (entry : TcpqEntry) : U32 := entry.seq + entry.len

/-- Cut the first `overlap` bytes off an entry. -/
def trimEntry (entry : TcpqEntry) (overlap : U32) : TcpqEntry :=
  { seq := entry.seq + overlap
    len := entry.len - overlap
    data := entry.data.drop overlap.toNat }

/-- The second loop of `insert_ooo_segment`: absorb the entries that end below
`endSeq`, and trim the one that crosses it. -/
def absorbEntries (endSeq : U32) : List TcpqEntry → U32 → List TcpqEntry × U32 × List Event
  | [], oooBytes => ([], oooBytes, [])
  | cur :: rest, oooBytes =>
      if seqLt cur.seq endSeq then
        if seqLeq (entryEnd cur) endSeq then
          absorbEntries endSeq rest (oooBytes - cur.len)
        else
          let overlap := endSeq - cur.seq
          (trimEntry cur overlap :: rest, oooBytes - overlap, [.trim overlap cur.len])
      else (cur :: rest, oooBytes, [])

/-- The part of a new segment that the entry before it does not hold; `none`
when it holds all of it. -/
def trimStart (prev : Option TcpqEntry) (new : TcpqEntry) : Option TcpqEntry :=
  match prev with
  | none => some new
  | some prev =>
      if seqGt (entryEnd prev) new.seq then
        let overlap := entryEnd prev - new.seq
        if overlap ≥ new.len then none
        else some { new with seq := entryEnd prev, len := new.len - overlap,
                             data := new.data.drop overlap.toNat }
      else some new

/-- `insert_ooo_segment`. -/
def insertOooSegment (env : Env) (tcb : Tcb) (seq : U32) (data : List U8) : Out :=
  let len := BitVec.ofNat 32 data.length
  let available := recvBufSize - bufUsed tcb - tcb.oooBytes
  let space := .freeSpace (bufUsed tcb) tcb.oooBytes
  if len > available then ⟨tcb, [space]⟩
  else
    let (before, cur) := tcb.oooHead.span fun entry => seqLeq (entryEnd entry) seq
    match trimStart before.getLast? ⟨seq, len, data⟩ with
    | none => ⟨tcb, [space]⟩
    | some entry =>
        if !env.queueAlloc then ⟨tcb, [space]⟩
        else
          let (cur, oooBytes, log) := absorbEntries (entryEnd entry) cur tcb.oooBytes
          ⟨{ tcb with oooHead := before ++ entry :: cur, oooBytes := oooBytes + entry.len },
            space :: log⟩

/-- Bytes that continue the in-order stream go into the receive buffer. -/
def acceptBytes (tcb : Tcb) (data : List U8) : Tcb :=
  let len := BitVec.ofNat 32 data.length
  { tcb with
    recvBuf := ringBufWrite tcb.recvBuf recvBufSize tcb.recvBufTail data
    recvBufTail := tcb.recvBufTail + len
    rcvNxt := tcb.rcvNxt + len }

@[simp] theorem acceptBytes_state (tcb : Tcb) (data : List U8) :
    (acceptBytes tcb data).state = tcb.state := by
  rw [acceptBytes]

/-- The entry `drain_ooo_queue` goes on with: without the bytes below `rcvNxt`. -/
def trimReceived (rcvNxt : U32) (entry : TcpqEntry) : TcpqEntry :=
  if seqLt entry.seq rcvNxt then trimEntry entry (rcvNxt - entry.seq) else entry

/-- `drain_ooo_queue`, by recursion on the queue. -/
def drainOooQueue (tcb : Tcb) : List TcpqEntry → Out
  | [] => ⟨{ tcb with oooHead := [] }, []⟩
  | entry :: rest =>
      if seqLeq (entryEnd entry) tcb.rcvNxt then
        drainOooQueue { tcb with oooBytes := tcb.oooBytes - entry.len } rest
      else
        let overlap := if seqLt entry.seq tcb.rcvNxt then tcb.rcvNxt - entry.seq else 0
        let trims :=
          if seqLt entry.seq tcb.rcvNxt then [.trim (tcb.rcvNxt - entry.seq) entry.len] else []
        let tcb := { tcb with oooBytes := tcb.oooBytes - overlap }
        let entry := trimReceived tcb.rcvNxt entry
        if entry.seq ≠ tcb.rcvNxt then ⟨{ tcb with oooHead := entry :: rest }, trims⟩
        else
          let bufUsed := tcb.recvBufTail - tcb.recvBufHead
          if entry.len > recvBufSize - bufUsed then
            ⟨{ tcb with oooHead := entry :: rest }, trims ++ [.freeSpace bufUsed 0, .drainFull]⟩
          else
            let out := drainOooQueue
              { acceptBytes tcb entry.data with oooBytes := tcb.oooBytes - entry.len } rest
            ⟨out.tcb, trims ++ .freeSpace bufUsed 0 :: out.log⟩

/-- The ACK covers bytes sent and not yet acknowledged. -/
def validAck (tcb : Tcb) (ackNum : U32) : Bool :=
  seqGt ackNum tcb.sndUna && seqLeq ackNum tcb.sndMax

/-- The sequence variables and the window after a valid ACK. -/
def acceptAck (tcb : Tcb) (hdr : TcpHdr) : Tcb :=
  let newlyAckedBytes := hdr.thAck - tcb.sndUna
  let sndNxt := if seqGt hdr.thAck tcb.sndNxt then hdr.thAck else tcb.sndNxt
  { tcb with
    sndUna := hdr.thAck
    sndNxt := sndNxt
    tDupacks := 0
    sendBufHead := tcb.sendBufHead + newlyAckedBytes
    sndWnd := getScaledWin tcb hdr }

/-- The round-trip sample of a valid ACK, and the block after using it. -/
def measureRtt (env : Env) (seg : TcpSegment) (tcb : Tcb) : Tcb × U32 :=
  if tcb.tsEnabled then
    match extractTsecr env seg with
    | some tsecr =>
        if tsecr = 0 then (tcb, 0)
        else
          let rttUs := (env.nowUs - tsecr.setWidth 64).setWidth 32
          ({ utcpXmitTimer tcb rttUs with tRtt := 0 }, rttUs)
    | none => (tcb, 0)
  else if tcb.tRtt ≠ 0 ∧ seqGt seg.hdr.thAck tcb.tRtseq then
    let measuredRtt := tcb.tRtt - 1
    let rttUs := measuredRtt * tickUs
    ({ utcpXmitTimer tcb rttUs with tRtt := 0 }, rttUs)
  else (tcb, 0)

/-- The value the REXMT timer restarts with while data is in flight. -/
def rearmTicks (env : Env) (tcb : Tcb) : U16 :=
  if tcb.tRxtshift > 0 then backedOff tcb.tRxtcur (tcpBackoff env tcb.tRxtshift.toNat)
  else tcb.tRxtcur.setWidth 16

/-- The retransmission timer after a valid ACK. -/
def rearmRexmt (env : Env) (tcb : Tcb) : Out :=
  if tcb.sndUna = tcb.sndMax then
    ⟨{ setTimer tcb .rexmt 0 with tRxtshift := 0 }, []⟩
  else
    let reads := if tcb.tRxtshift > 0 then [.backoff tcb.tRxtshift.toNat] else []
    ⟨setTimer tcb .rexmt (rearmTicks env tcb), reads⟩

/-- A duplicate ACK for congestion control, or an update of the send window. -/
def handleSameAck (env : Env) (tcb : Tcb) (seg : TcpSegment) : Option Out :=
  let currentScaledWin := getScaledWin tcb seg.hdr
  if currentScaledWin > tcb.sndWnd then
    some ⟨{ tcb with sndWnd := currentScaledWin }, []⟩
  else if payload seg = [] ∧ tcb.sndUna ≠ tcb.sndMax then
    let dupacks := if tcb.tDupacks < 255 then tcb.tDupacks + 1 else tcb.tDupacks
    let tcb := { tcb with sndWnd := currentScaledWin, tDupacks := dupacks }
    congControl env tcb (.dupAck (dupacks.setWidth 32))
  else some ⟨tcb, []⟩

/-- The block `handle_received_data` hands to congestion control with a valid
ACK, and what it did before. -/
def beforeAckEvent (env : Env) (tcb : Tcb) (seg : TcpSegment) : Out :=
  rearmRexmt env (measureRtt env seg (acceptAck tcb seg.hdr)).1

/-- The acknowledgment half of `handle_received_data`. -/
def handleAck (env : Env) (tcb : Tcb) (seg : TcpSegment) : Option Out :=
  if validAck tcb seg.hdr.thAck then do
    let newlyAckedBytes := seg.hdr.thAck - tcb.sndUna
    let rttUs := (measureRtt env seg (acceptAck tcb seg.hdr)).2
    let out := beforeAckEvent env tcb seg
    let cc ← congControl env out.tcb (.ack newlyAckedBytes rttUs)
    some ⟨cc.tcb, out.log ++ cc.log⟩
  else if seg.hdr.thAck = tcb.sndUna then handleSameAck env tcb seg
  else some ⟨tcb, []⟩

/-- The flags after in-order data: an ACK now, or a delayed one. -/
def scheduleAck (tcb : Tcb) (gapFilled : Bool) : Tcb :=
  if gapFilled ∨ tcb.tDupacks > 0 ∨ tcb.tfDelack then
    setTimer { tcb with tfDelack := false, tfAcknow := true } .delack 0
  else setTimer { tcb with tfDelack := true } .delack tcptvDelack

/-- In-order data that fits: accept it, drain the queue, and schedule the ACK. -/
def acceptInOrder (tcb : Tcb) (data : List U8) : Out :=
  let accepted := acceptBytes tcb data
  let drained := drainOooQueue accepted accepted.oooHead
  ⟨scheduleAck drained.tcb (drained.tcb.rcvNxt ≠ accepted.rcvNxt), .accepted :: drained.log⟩

/-- The data half of `handle_received_data`, from a trimmed payload on. -/
def placeData (env : Env) (tcb : Tcb) (seqNum : U32) (data : List U8) : Out :=
  if seqNum = tcb.rcvNxt then
    let space := .freeSpace (bufUsed tcb) tcb.oooBytes
    if data.length ≤ (recvBufSize - bufUsed tcb - tcb.oooBytes).toNat then
      let placed := acceptInOrder tcb data
      let out := utcpOutput env.output placed.tcb
      ⟨out.tcb, space :: (placed.log ++ out.log)⟩
    else ⟨tcb, [space]⟩
  else
    let placed := insertOooSegment env tcb seqNum data
    let out := utcpOutput env.output (setAcknow placed.tcb)
    ⟨out.tcb, placed.log ++ out.log⟩

theorem placeData_fits (env : Env) {tcb : Tcb} {data : List U8}
    (hroom : data.length ≤ (recvBufSize - bufUsed tcb - tcb.oooBytes).toNat) :
    placeData env tcb tcb.rcvNxt data =
      ⟨(utcpOutput env.output (acceptInOrder tcb data).tcb).tcb,
        .freeSpace (bufUsed tcb) tcb.oooBytes ::
          ((acceptInOrder tcb data).log ++
            (utcpOutput env.output (acceptInOrder tcb data).tcb).log)⟩ := by
  rw [placeData, if_pos rfl, if_pos hroom]

theorem placeData_full (env : Env) {tcb : Tcb} {data : List U8}
    (hroom : ¬ data.length ≤ (recvBufSize - bufUsed tcb - tcb.oooBytes).toNat) :
    placeData env tcb tcb.rcvNxt data = ⟨tcb, [.freeSpace (bufUsed tcb) tcb.oooBytes]⟩ := by
  rw [placeData, if_pos rfl, if_neg hroom]

theorem placeData_other (env : Env) {tcb : Tcb} {seqNum : U32} (data : List U8)
    (hseq : seqNum ≠ tcb.rcvNxt) :
    placeData env tcb seqNum data =
      ⟨(utcpOutput env.output (setAcknow (insertOooSegment env tcb seqNum data).tcb)).tcb,
        (insertOooSegment env tcb seqNum data).log ++
          (utcpOutput env.output
            (setAcknow (insertOooSegment env tcb seqNum data).tcb)).log⟩ := by
  rw [placeData, if_neg hseq]

/-- The data half of `handle_received_data`. -/
def handleData (env : Env) (tcb : Tcb) (seg : TcpSegment) : Out :=
  let data := payload seg
  let seqNum := seg.hdr.thSeq
  if data = [] then utcpOutput env.output tcb
  else if seqLt seqNum tcb.rcvNxt then
    let duplicateBytes := tcb.rcvNxt - seqNum
    if duplicateBytes.toNat ≥ data.length then
      utcpOutput env.output (setAcknow tcb)
    else placeData env tcb (seqNum + duplicateBytes) (data.drop duplicateBytes.toNat)
  else placeData env tcb seqNum data

/-- `handle_received_data`. -/
def handleReceivedData (env : Env) (tcb : Tcb) (seg : TcpSegment) : Option Out := do
  let acked ← handleAck env (processWindowOption env seg tcb) seg
  let out := handleData env acked.tcb seg
  some ⟨out.tcb, acked.log ++ out.log⟩

/-- Where a datagram came from: address and UDP port. -/
structure Peer where
  ip : U32
  port : U16

/-- `TCP_LISTEN` with a SYN, up to the call of `utcp_output`. -/
def acceptSyn (env : Env) (tcb : Tcb) (seg : TcpSegment) (peer : Peer) : Tcb :=
  let tcb := processWindowOption env seg tcb
  { tcb with
    dstPort := seg.hdr.thSport
    dstIp := peer.ip
    dstUdpPort := peer.port
    irs := seg.hdr.thSeq
    rcvNxt := seg.hdr.thSeq + 1
    sndWnd := getScaledWin tcb seg.hdr
    iss := 0
    sndNxt := 0
    sndUna := 0
    state := .synRecv }

/-- `TCP_SYN_SENT` with an acceptable SYN-ACK, up to the congestion control. -/
def acceptSynAck (env : Env) (tcb : Tcb) (seg : TcpSegment) : Tcb :=
  let tcb :=
    { tcb with
      sndUna := seg.hdr.thAck
      irs := seg.hdr.thSeq
      rcvNxt := seg.hdr.thSeq + 1
      state := .established }
  let tcb := processWindowOption env seg tcb
  let tcb := { tcb with sndWnd := getScaledWin tcb seg.hdr }
  { setTimer tcb .rexmt 0 with tRxtshift := 0 }

/-- `TCP_SYN_RECV` with the final ACK, up to the congestion control. -/
def acceptFinalAck (tcb : Tcb) (seg : TcpSegment) : Tcb :=
  let tcb := { tcb with state := .established, sndUna := seg.hdr.thAck }
  { setTimer tcb .rexmt 0 with tRxtshift := 0 }

/-- Whether a segment completes the handshake of a block in `TCP_SYN_RECV`. -/
def completesHandshake (tcb : Tcb) (hdr : TcpHdr) : Bool :=
  hasFlag hdr.thFlags thAck && hdr.thAck == tcb.sndNxt

/-- Whether a segment is the SYN-ACK a block in `TCP_SYN_SENT` waits for. -/
def isAwaitedSynAck (tcb : Tcb) (hdr : TcpHdr) : Bool :=
  hasFlag hdr.thFlags thSyn && hasFlag hdr.thFlags thAck && hdr.thAck == tcb.sndNxt

/-- `TCP_SYN_RECV`, up to the fall-through into `TCP_ESTABLISHED`. -/
def synRecvInput (env : Env) (tcb : Tcb) (seg : TcpSegment) : Option Out :=
  if completesHandshake tcb seg.hdr then congControl env (acceptFinalAck tcb seg) .init
  else some ⟨tcb, []⟩

/-- `utcp_input` for one datagram and the block it belongs to. -/
def utcpInput (env : Env) (tcb : Tcb) (seg : TcpSegment) (peer : Peer) : Option Out :=
  match tcb.state with
  | .listen =>
      if hasFlag seg.hdr.thFlags thSyn then
        some (utcpOutput env.output (acceptSyn env tcb seg peer))
      else some ⟨tcb, []⟩
  | .synSent =>
      if isAwaitedSynAck tcb seg.hdr then do
        let cc ← congControl env (acceptSynAck env tcb seg) .init
        let out := utcpOutput env.output (setAcknow cc.tcb)
        some ⟨out.tcb, cc.log ++ out.log⟩
      else some ⟨tcb, []⟩
  | .synRecv => do
      let cc ← synRecvInput env tcb seg
      let out ← handleReceivedData env cc.tcb seg
      some ⟨out.tcb, cc.log ++ out.log⟩
  | .established => handleReceivedData env tcb seg
  | _ => some ⟨tcb, []⟩

end Utcp.Input
