import Utcp.CongestionControl

/-!
`net/timer.c`: the round-trip estimator, and what the expiry of a timer does.
-/

namespace Utcp.Timers

open Utcp.Tcp
open Utcp.Utils
open Utcp.Output
open Utcp.CongestionControl

/-- Microseconds in a tick: `TCP_TICK_MS * 1000U`. -/
def tickUs : U32 := 10000

def tcptvMin : U32 := 20
def tcptvRexmtmax : U32 := 6400
def tcptvSrttdflt : U32 := 100
def tcptvDelack : U16 := 20

/-- `TCP_MAXRXTSHIFT`: the last index of `tcp_backoff`. -/
def tcpMaxrxtshift : Nat := 12

def tcpBackoffTable : List U32 := [1, 2, 4, 8, 16, 32, 64, 64, 64, 64, 64, 64, 64]

/-- The read `tcp_backoff[index]`; past the table it finds what lies there. -/
def tcpBackoff (env : Env) (index : Nat) : U32 := tcpBackoffTable.getD index (env.beyond index)

/-- An interval times a backoff factor, capped at 64 seconds, as a `short`. -/
def backedOff (base factor : U32) : U16 :=
  let ticks := (base * factor).toInt
  BitVec.ofInt 16 (if ticks > tcptvRexmtmax.toInt then tcptvRexmtmax.toInt else ticks)

/-- The REXMT timer after an expiry with the current `t_rxtshift`. -/
def newTimer (env : Env) (tcb : Tcb) : U16 :=
  let baseRto := if tcb.tRxtcur > 0 then tcb.tRxtcur else tcptvSrttdflt
  backedOff baseRto (tcpBackoff env tcb.tRxtshift.toNat)

/-- Back off the retransmission timer and go back to the first byte in flight. -/
def goBack (env : Env) (tcb : Tcb) : Tcb :=
  let tcb := { tcb with tRxtshift := tcb.tRxtshift + 1 }
  { setTimer tcb .rexmt (newTimer env tcb) with sndNxt := tcb.sndUna, tRtt := 0 }

/-- `utcp_timers`. -/
def utcpTimers (env : Env) (tcb : Tcb) : Timer → Option Out
  | .rexmt => do
      let reads := [.expired .rexmt, .backoff (tcb.tRxtshift + 1).toNat]
      let cc ← congControl env (goBack env tcb) (.timeout (flightSize tcb))
      let out := utcpOutput env.output cc.tcb
      some ⟨out.tcb, reads ++ (cc.log ++ out.log)⟩
  | .delack =>
      let out := utcpOutput env.output { tcb with tfDelack := false, tfAcknow := true }
      some ⟨out.tcb, .expired .delack :: out.log⟩
  | timer => some ⟨tcb, [.expired timer]⟩

/-- One timer in one tick: count down, and act when the count reaches zero. -/
def tickTimer (env : Env) (tcb : Tcb) (timer : Timer) : Option Out :=
  if 0 < (tcb.tTimer timer).toInt then
    let tcb := setTimer tcb timer (tcb.tTimer timer - 1)
    if tcb.tTimer timer = 0 then utcpTimers env tcb timer else some ⟨tcb, []⟩
  else some ⟨tcb, []⟩

/-- The five timers of a control block in one tick. -/
def tickTimers (envs : Timer → Env) : List Timer → Tcb → Option Out
  | [], tcb => some ⟨tcb, []⟩
  | timer :: timers, tcb => do
      let out ← tickTimer (envs timer) tcb timer
      let rest ← tickTimers envs timers out.tcb
      some ⟨rest.tcb, out.log ++ rest.log⟩

/-- What one wake-up of `utcp_slowtimo_thread` does to a control block. -/
def utcpSlowtimo (envs : Timer → Env) (tcb : Tcb) : Option Out :=
  if tcb.state = .closed then some ⟨tcb, []⟩
  else
    tickTimers envs Timer.all
      { tcb with
        tIdle := tcb.tIdle + 1
        tRtt := if tcb.tRtt > 0 then tcb.tRtt + 1 else tcb.tRtt }

/-- `t_rxtcur` from the estimates, clamped to what the code allows. -/
def rxtcurOf (tSrtt tRttvar : U32) : U32 :=
  let rxtcur := (tSrtt >>> 3) + tRttvar
  if rxtcur < tcptvMin then tcptvMin
  else if rxtcur > tcptvRexmtmax then tcptvRexmtmax
  else rxtcur

/-- The two estimates after a sample of some ticks. -/
def updateEstimates (tcb : Tcb) (rttTicks : Int) : Tcb :=
  if tcb.tSrtt = 0 then
    { tcb with
      tSrtt := BitVec.ofInt 32 (rttTicks * 8)
      tRttvar := BitVec.ofInt 32 (rttTicks * 2) }
  else
    let delta := rttTicks - (tcb.tSrtt >>> 3).toInt
    let absDelta := if delta < 0 then -delta else delta
    { tcb with
      tSrtt := tcb.tSrtt + BitVec.ofInt 32 delta
      tRttvar := tcb.tRttvar + BitVec.ofInt 32 (absDelta - (tcb.tRttvar >>> 2).toInt) }

/-- `utcp_xmit_timer`. -/
def utcpXmitTimer (tcb : Tcb) (rttUs : U32) : Tcb :=
  let rttTicks := (rttUs / tickUs).toInt
  let tcb := updateEstimates tcb (if rttTicks < 1 then 1 else rttTicks)
  { tcb with
    tRxtcur := rxtcurOf tcb.tSrtt tcb.tRttvar
    minRttSeenUs :=
      if tcb.minRttSeenUs = 0 ∨ rttUs.setWidth 64 < tcb.minRttSeenUs then rttUs.setWidth 64
      else tcb.minRttSeenUs }

end Utcp.Timers
