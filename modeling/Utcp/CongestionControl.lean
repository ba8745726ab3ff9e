import Utcp.Output

/-!
`cc/core.c` and the four modules `cc_ops` can point to. An event returns `none`
where the process is killed by a division by zero.
-/

namespace Utcp.CongestionControl

open Utcp.Tcp
open Utcp.Utils
open Utcp.Output

def ccInit (tcb : Tcb) : Tcb :=
  { tcb with cwnd := mss * iw, ssthresh := 0xFFFFFFFF, caState := .open }

def ccAimd (tcb : Tcb) (acked : U32) : Option Tcb :=
  let caState := if tcb.caState = .loss then .open else tcb.caState
  if tcb.cwnd < tcb.ssthresh then
    some { tcb with caState, cwnd := tcb.cwnd + if acked < mss then acked else mss }
  else
    let effectiveAcked := if acked < tcb.cwnd then acked else tcb.cwnd
    if tcb.cwnd = 0 then none
    else
      let increase := effectiveAcked.toNat * mss.toNat / tcb.cwnd.toNat
      some { tcb with caState, cwnd := tcb.cwnd + BitVec.ofNat 32 (max increase 1) }

def ccHalveSsthresh (flightSize : U32) : U32 :=
  let halfFlight := flightSize / 2
  if halfFlight > 2 * mss then halfFlight else 2 * mss

def ccTimeout (tcb : Tcb) (flightSize : U32) : Tcb :=
  let effectiveFlight := if flightSize < tcb.cwnd then flightSize else tcb.cwnd
  let newSsthresh := ccHalveSsthresh effectiveFlight
  let newSsthresh :=
    if (tcb.caState = .recovery ∨ tcb.caState = .loss) ∧ newSsthresh > tcb.ssthresh then
      tcb.ssthresh
    else newSsthresh
  { tcb with ssthresh := newSsthresh, cwnd := mss, caState := .loss }

/-- The flight size congestion control halves on a third duplicate ACK. -/
def flightSize (tcb : Tcb) : U32 := tcb.sndNxt - tcb.sndUna

def tahoeCongControl (env : Env) (tcb : Tcb) : CcEventArgs → Option Out
  | .init => some ⟨ccInit tcb, []⟩
  | .ack acked _ => do
      let tcb ← ccAimd { tcb with caState := .open } acked
      some ⟨tcb, []⟩
  | .dupAck totalDups =>
      if totalDups = 3 then
        let tcb := { tcb with ssthresh := ccHalveSsthresh (flightSize tcb), cwnd := mss }
        some ⟨tcb, utcpRetransmitSegment env.retransmit tcb tcb.sndUna⟩
      else some ⟨tcb, []⟩
  | .timeout flight => some ⟨ccTimeout tcb flight, []⟩

def renoCongControl (env : Env) (tcb : Tcb) : CcEventArgs → Option Out
  | .init => some ⟨ccInit tcb, []⟩
  | .ack acked _ =>
      if tcb.caState = .recovery then
        some ⟨{ tcb with cwnd := tcb.ssthresh, caState := .open }, []⟩
      else do
        let tcb ← ccAimd tcb acked
        some ⟨tcb, []⟩
  | .dupAck totalDups =>
      if totalDups = 3 then
        let tcb := { tcb with ssthresh := ccHalveSsthresh (flightSize tcb) }
        let log := utcpRetransmitSegment env.retransmit tcb tcb.sndUna
        some ⟨{ tcb with caState := .recovery, cwnd := tcb.ssthresh + 3 * mss }, log⟩
      else if totalDups > 3 then
        some (utcpOutput env.burst { tcb with cwnd := tcb.cwnd + mss })
      else some ⟨tcb, []⟩
  | .timeout flight => some ⟨ccTimeout tcb flight, []⟩

/-- An ACK in recovery, in `new_reno.c`. -/
def recoveryAck (env : Env) (tcb : Tcb) (acked : U32) : Out :=
  if seqGeq tcb.sndUna tcb.recover then
    ⟨{ tcb with cwnd := tcb.ssthresh, caState := .open }, []⟩
  else
    -- partial ACK: another segment of the same window is missing
    let log := utcpRetransmitSegment env.retransmit tcb tcb.sndUna
    let cwnd := if acked ≥ tcb.cwnd then mss else tcb.cwnd - acked
    ⟨{ tcb with tRtt := 0, cwnd := cwnd + mss, tDupacks := 0 }, log⟩

/-- A duplicate ACK, in `new_reno.c`. -/
def recoveryDupAck (env : Env) (tcb : Tcb) (totalDups : U32) : Out :=
  if totalDups = 3 then
    if seqGt tcb.sndUna tcb.recover then
      let tcb := { tcb with ssthresh := ccHalveSsthresh (flightSize tcb), recover := tcb.sndMax }
      let log := utcpRetransmitSegment env.retransmit tcb tcb.sndUna
      ⟨{ tcb with tRtt := 0, caState := .recovery, cwnd := tcb.ssthresh + 3 * mss }, log⟩
    else ⟨tcb, []⟩
  else if totalDups > 3 ∧ tcb.caState = .recovery then
    utcpOutput env.burst { tcb with cwnd := tcb.cwnd + mss }
  else ⟨tcb, []⟩

def newRenoCongControl (env : Env) (tcb : Tcb) : CcEventArgs → Option Out
  | .init => some ⟨{ ccInit tcb with recover := tcb.iss }, []⟩
  | .ack acked _ =>
      if tcb.caState = .recovery then some (recoveryAck env tcb acked)
      else do
        let tcb ← ccAimd tcb acked
        some ⟨tcb, []⟩
  | .dupAck totalDups => some (recoveryDupAck env tcb totalDups)
  | .timeout flight => some ⟨ccTimeout { tcb with recover := tcb.sndMax } flight, []⟩

/-- An ACK in recovery, in `lstm_reno.c`. -/
def lstmRecoveryAck (env : Env) (tcb : Tcb) (acked : U32) : Out :=
  if seqGeq tcb.sndUna tcb.recover then
    ⟨{ tcb with cwnd := tcb.ssthresh, caState := .open }, []⟩
  else
    let log := utcpRetransmitSegment env.retransmit tcb tcb.sndUna
    let tcb := { tcb with tRtt := 0 }
    let tcb := { tcb with cwnd := if acked ≥ tcb.cwnd then mss else tcb.cwnd - acked }
    let tcb := { tcb with cwnd := tcb.cwnd + mss }
    ⟨{ tcb with tDupacks := 0 }, log⟩

/-- A duplicate ACK, in `lstm_reno.c`. -/
def lstmRecoveryDupAck (env : Env) (tcb : Tcb) (totalDups : U32) : Out :=
  if totalDups = 3 then
    if seqGt tcb.sndUna tcb.recover then
      let tcb := { tcb with ssthresh := ccHalveSsthresh (flightSize tcb) }
      let tcb := { tcb with recover := tcb.sndMax }
      let log := utcpRetransmitSegment env.retransmit tcb tcb.sndUna
      let tcb := { tcb with tRtt := 0 }
      let tcb := { tcb with caState := .recovery }
      ⟨{ tcb with cwnd := tcb.ssthresh + 3 * mss }, log⟩
    else ⟨tcb, []⟩
  else if totalDups > 3 ∧ tcb.caState = .recovery then
    utcpOutput env.burst { tcb with cwnd := tcb.cwnd + mss }
  else ⟨tcb, []⟩

theorem lstmRecoveryAck_eq (env : Env) (tcb : Tcb) (acked : U32) :
    lstmRecoveryAck env tcb acked = recoveryAck env tcb acked := by
  rw [lstmRecoveryAck, recoveryAck]

theorem lstmRecoveryDupAck_eq (env : Env) (tcb : Tcb) (totalDups : U32) :
    lstmRecoveryDupAck env tcb totalDups = recoveryDupAck env tcb totalDups := by
  rw [lstmRecoveryDupAck, recoveryDupAck]

def lstmRenoCongControl (env : Env) (tcb : Tcb) : CcEventArgs → Option Out
  | .init => some ⟨{ ccInit tcb with recover := tcb.iss }, []⟩
  | .ack acked _ =>
      if tcb.caState = .recovery then some (lstmRecoveryAck env tcb acked)
      else do
        let newSsthresh := ccHalveSsthresh (flightSize tcb)
        let ssthresh :=
          if env.fired ∧ newSsthresh < tcb.ssthresh then newSsthresh else tcb.ssthresh
        let tcb ← ccAimd { tcb with ssthresh } acked
        some ⟨tcb, []⟩
  | .dupAck totalDups => some (lstmRecoveryDupAck env tcb totalDups)
  | .timeout flight => some ⟨ccTimeout { tcb with recover := tcb.sndMax } flight, []⟩

/-- `tcb->cc_ops->cong_control`. -/
def congControl (env : Env) (tcb : Tcb) (args : CcEventArgs) : Option Out :=
  match tcb.ccOps with
  | .tahoe => tahoeCongControl env tcb args
  | .reno => renoCongControl env tcb args
  | .newReno => newRenoCongControl env tcb args
  | .lstmReno => lstmRenoCongControl env tcb args

end Utcp.CongestionControl
