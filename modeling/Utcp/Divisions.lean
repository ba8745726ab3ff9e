import Utcp.Karn
import Utcp.Lifecycle
import Utcp.WindowGrowth

/-!
Where `cc_aimd` divides by `cwnd`: over the life of an endpoint, the window is zero only
before the handshake is over and no timeout has set it.
-/

namespace Utcp.Divisions

open Traces
open TransitionSystems
open Utcp.Tcp
open Utcp.Utils
open Utcp.Output
open Utcp.CongestionControl
open Utcp.Timers
open Utcp.Input
open Utcp.Api
open Utcp.Network
open Utcp.Steps
open Utcp.Sections
open Utcp.SectionCases
open Utcp.Sender
open Utcp.Lifecycle
open Utcp.WindowGrowth
open Utcp.Karn

variable {tcb tcb' : Tcb} {log : List Event} {e e' : Endpoint} {s : Section} {env : Env}
  {seg : TcpSegment} {out : Out}

/-- Code that leaves congestion control alone. -/
structure SameControl (tcb tcb' : Tcb) : Prop where
  sndUna : tcb'.sndUna = tcb.sndUna
  cwnd : tcb'.cwnd = tcb.cwnd
  ssthresh : tcb'.ssthresh = tcb.ssthresh
  recover : tcb'.recover = tcb.recover
  caState : tcb'.caState = tcb.caState

theorem SameControl.refl (tcb : Tcb) : SameControl tcb tcb := ⟨rfl, rfl, rfl, rfl, rfl⟩

theorem SameControl.trans {tcb'' : Tcb} (h : SameControl tcb tcb') (h' : SameControl tcb' tcb'') :
    SameControl tcb tcb'' :=
  ⟨h'.sndUna.trans h.sndUna, h'.cwnd.trans h.cwnd, h'.ssthresh.trans h.ssthresh,
    h'.recover.trans h.recover, h'.caState.trans h.caState⟩

theorem setAcknow_sameControl (tcb : Tcb) : SameControl tcb (setAcknow tcb) :=
  ⟨rfl, rfl, rfl, rfl, rfl⟩

theorem utcpOutput_sameControl (readings : Nat → Reading) (tcb : Tcb) :
    SameControl tcb (utcpOutput readings tcb).tcb := by
  obtain ⟨_, _, _, _, _, _, _, heq⟩ := utcpOutput_eq readings tcb
  rw [heq]
  exact ⟨rfl, rfl, rfl, rfl, rfl⟩

theorem options_sameControl (env : Env) (seg : TcpSegment) (tcb : Tcb) :
    SameControl tcb (processWindowOption env seg tcb) := by
  obtain ⟨_, _, _, _, heq⟩ := processWindowOption_eq env seg tcb
  rw [heq]
  exact ⟨rfl, rfl, rfl, rfl, rfl⟩

theorem handleData_sameControl (env : Env) (tcb : Tcb) (seg : TcpSegment) :
    SameControl tcb (handleData env tcb seg).tcb := by
  obtain ⟨_, _, _, _, _, _, _, _, _, _, _, _, heq⟩ := handleData_eq env tcb seg
  rw [heq]
  exact ⟨rfl, rfl, rfl, rfl, rfl⟩

/-- Congestion control before the handshake is over and before any timeout. -/
structure Unopened (tcb : Tcb) : Prop where
  cwnd : tcb.cwnd = 0
  ssthresh : tcb.ssthresh = 0
  caState : tcb.caState = .open
  recover : tcb.recover = tcb.sndUna

theorem Unopened.same (h : Unopened tcb) (hsame : SameControl tcb tcb') : Unopened tcb' :=
  ⟨hsame.cwnd.trans h.cwnd, hsame.ssthresh.trans h.ssthresh, hsame.caState.trans h.caState,
    hsame.recover.trans (h.recover.trans hsame.sndUna.symm)⟩

theorem floors_same (h : Floors True tcb) (hsame : SameControl tcb tcb') : Floors True tcb' := by
  refine ⟨fun hinside => ?_, ?_⟩
  · rw [hsame.cwnd]
    exact h.cwnd hinside
  · rw [hsame.ssthresh]
    exact h.ssthresh

theorem beforeAckEvent_control (env : Env) (tcb : Tcb) (seg : TcpSegment) :
    (beforeAckEvent env tcb seg).tcb.cwnd = tcb.cwnd ∧
      (beforeAckEvent env tcb seg).tcb.ssthresh = tcb.ssthresh ∧
      (beforeAckEvent env tcb seg).tcb.caState = tcb.caState ∧
      (beforeAckEvent env tcb seg).tcb.ccOps = tcb.ccOps := by
  obtain ⟨_, _, _, _, _, _, _, heq⟩ := beforeAckEvent_eq env tcb seg
  rw [heq]
  exact ⟨rfl, rfl, rfl, rfl⟩

/-- The division by zero. -/
theorem ack_killed (hops : tcb.ccOps = .newReno) (hcwnd : tcb.cwnd = 0) (hssthresh : tcb.ssthresh = 0)
    (hstate : tcb.caState = .open) (acked rttUs : U32) :
    congControl env tcb (.ack acked rttUs) = none := by
  have hnone : ccAimd tcb acked = none := by
    simp only [ccAimd]
    rw [hcwnd, hssthresh, if_neg (by decide), if_pos rfl]
  rw [congControl, hops]
  simp only [newRenoCongControl, hstate, hnone]
  rfl

theorem Unopened.dupAck (h : Unopened tcb) (hops : tcb.ccOps = .newReno) (totalDups : U32) :
    congControl env tcb (.dupAck totalDups) = some ⟨tcb, []⟩ := by
  have hnot : seqGt tcb.sndUna tcb.recover = false := by
    rw [h.recover, seqGt, BitVec.sub_self]
    rfl
  rw [congControl, hops]
  simp only [newRenoCongControl, recoveryDupAck, hnot, h.caState]
  split <;> simp

/-- What `handle_received_data` does to congestion control. -/
theorem received_control (hops : tcb.ccOps = .newReno) (hcap : tcb.cwnd.toNat ≤ windowCap)
    (h : handleReceivedData env tcb seg = some out) :
    (Unopened tcb → Unopened out.tcb) ∧ (Floors True tcb → Floors True out.tcb) := by
  obtain ⟨acked, hacked, hout⟩ := Option.bind_eq_some_iff.mp h
  cases hout
  have hlearned := options_sameControl env seg tcb
  have hops' : (processWindowOption env seg tcb).ccOps = .newReno := by
    obtain ⟨_, _, _, _, heq⟩ := processWindowOption_eq env seg tcb
    rw [heq]
    exact hops
  rw [← hlearned.cwnd] at hcap
  have hdata := handleData_sameControl env acked.tcb seg
  suffices hack : (Unopened (processWindowOption env seg tcb) → Unopened acked.tcb) ∧
      (Floors True (processWindowOption env seg tcb) → Floors True acked.tcb) from
    ⟨fun h => (hack.1 (h.same hlearned)).same hdata,
      fun h => floors_same (hack.2 (floors_same h hlearned)) hdata⟩
  generalize processWindowOption env seg tcb = learned at hacked hops' hcap ⊢
  cases handleAck_cases hacked with
  | acked cc hvalid hcc =>
      obtain ⟨hcwnd, hssthresh, hstate, hsame⟩ := beforeAckEvent_control env learned seg
      refine ⟨fun h => ?_, fun h => ?_⟩
      · rw [ack_killed (hsame.trans hops') (hcwnd.trans h.cwnd) (hssthresh.trans h.ssthresh)
          (hstate.trans h.caState)] at hcc
        cases hcc
      · have hbefore : Floors True (beforeAckEvent env learned seg).tcb := by
          refine ⟨fun hinside => ?_, ?_⟩
          · rw [hcwnd]
            exact h.cwnd hinside
          · rw [hssthresh]
            exact h.ssthresh
        have hfits : True → Fits env (beforeAckEvent env learned seg).tcb
            (.ack (seg.hdr.thAck - learned.sndUna) (measureRtt env seg (acceptAck learned seg.hdr)).2) :=
          fun _ => fits_of_le (hsame.trans hops') (by rw [hcwnd]; exact hcap) _
        have hafter : Floors True cc.tcb := congControl_floors hbefore hfits hcc
        exact hafter
  | window => exact ⟨fun h => ⟨h.cwnd, h.ssthresh, h.caState, h.recover⟩, fun h => ⟨h.cwnd, h.ssthresh⟩⟩
  | duplicate _ dupacks hvalid hsame hsmaller hbare hflight hdupacks hcc =>
      refine ⟨fun h => ?_, fun h => ?_⟩
      · have hcounted : Unopened
            { learned with sndWnd := getScaledWin learned seg.hdr, tDupacks := dupacks } :=
          ⟨h.cwnd, h.ssthresh, h.caState, h.recover⟩
        rw [hcounted.dupAck hops'] at hcc
        cases hcc
        exact hcounted
      · have hcounted : Floors True
            { learned with sndWnd := getScaledWin learned seg.hdr, tDupacks := dupacks } :=
          ⟨h.cwnd, h.ssthresh⟩
        exact congControl_floors hcounted (fun _ => fits_of_le hops' hcap _) hcc
  | ignored => exact ⟨id, id⟩

/-- What a section leaves true of congestion control: an expiry of the retransmission
timer sets the window. -/
structure Controls (tcb : Tcb) (log : List Event) (tcb' : Tcb) : Prop where
  unopened : Unopened tcb → .expired .rexmt ∉ log → Unopened tcb'
  expires : Unopened tcb → .expired .rexmt ∈ log → Floors True tcb'
  floors : Floors True tcb → Floors True tcb'

theorem controls_composes : Composes Controls where
  nil := fun tcb => ⟨fun h _ => h, fun _ hlog => absurd hlog List.not_mem_nil, id⟩
  append := by
    intro a b c log log' hab hbc
    refine ⟨fun ha hlog => ?_, fun ha hlog => ?_, fun ha => hbc.floors (hab.floors ha)⟩
    · rw [List.mem_append, not_or] at hlog
      exact hbc.unopened (hab.unopened ha hlog.1) hlog.2
    · by_cases hfirst : .expired .rexmt ∈ log
      · exact hbc.floors (hab.expires ha hfirst)
      · have hsecond := (List.mem_append.mp hlog).resolve_left hfirst
        exact hbc.expires (hab.unopened ha hfirst) hsecond

theorem controls_same (hsame : SameControl tcb tcb') (hlog : .expired .rexmt ∉ log) :
    Controls tcb log tcb' :=
  ⟨fun h _ => h.same hsame, fun _ hexpired => absurd hexpired hlog, fun h => floors_same h hsame⟩

theorem output_controls (readings : Nat → Reading) (hsame : SameControl tcb tcb') :
    Controls tcb (utcpOutput readings tcb').log (utcpOutput readings tcb').tcb :=
  controls_same (hsame.trans (utcpOutput_sameControl readings tcb'))
    (utcpOutput_silent readings tcb' .rexmt)

/-- `ssthresh` is replaced where `ca_state` is still open. -/
theorem floors_ccTimeout (hopen : tcb.caState = .open) (flight : U32) :
    Floors True (ccTimeout tcb flight) := by
  refine ⟨fun _ => Nat.le_refl _, ?_⟩
  rw [ccTimeout, hopen]
  exact le_ccHalveSsthresh _

theorem expires_controls (env : Env) (tcb : Tcb) (recover : U32) :
    Controls tcb [.expired .rexmt, .backoff (tcb.tRxtshift + 1).toNat]
      (expireRexmt env tcb recover) := by
  have hlog : Event.expired .rexmt ∈ [.expired .rexmt, .backoff (tcb.tRxtshift + 1).toNat] :=
    List.mem_cons_self
  refine ⟨fun _ hnot => absurd hlog hnot, fun h _ => ?_, fun h => ?_⟩
  · rw [expireRexmt]
    apply floors_ccTimeout
    exact h.caState
  · rw [expireRexmt]
    apply Floors.ccTimeout
    exact ⟨h.cwnd, h.ssthresh⟩

theorem tick_controls {timer : Timer} (h : TickCases env tcb timer out) :
    Controls tcb out.log out.tcb := by
  cases h with
  | idle => exact controls_composes.nil tcb
  | countDown => exact controls_same ⟨rfl, rfl, rfl, rfl, rfl⟩ List.not_mem_nil
  | rexmt recover =>
      exact controls_composes.append (expires_controls env tcb recover)
        (output_controls env.output (.refl _))
  | delack =>
      have hexpired : Event.expired .rexmt ∉ [.expired .delack] := by simp
      exact controls_composes.append (controls_same (.refl tcb) hexpired)
        (output_controls env.output ⟨rfl, rfl, rfl, rfl, rfl⟩)
  | other timer _ hrexmt =>
      exact controls_same ⟨rfl, rfl, rfl, rfl, rfl⟩ (by simpa using Ne.symm hrexmt)

theorem slowtimo_controls {envs : Timer → Env} (h : utcpSlowtimo envs tcb = some out) :
    Controls tcb out.log out.tcb :=
  utcpSlowtimo_composes controls_composes (fun _ _ _ htick => tick_controls htick)
    (controls_same ⟨rfl, rfl, rfl, rfl, rfl⟩ List.not_mem_nil) h

theorem send_controls (envs : Nat → Env) (tcb : Tcb) (bytes : List U8) :
    Controls tcb (utcpSend envs tcb bytes).1.log (utcpSend envs tcb bytes).1.tcb :=
  utcpSend_composes controls_composes
    (fun turn _ _ => output_controls (envs turn).output ⟨rfl, rfl, rfl, rfl, rfl⟩) tcb bytes

theorem takeBytes_controls (tcb : Tcb) (n : Nat) :
    Controls tcb [.freeSpace (bufUsed (takeBytes tcb n)) (takeBytes tcb n).oooBytes]
      (takeBytes tcb n) := by
  obtain ⟨_, _, heq⟩ := takeBytes_eq tcb n
  refine controls_same ?_ (by simp)
  rw [heq]
  exact ⟨rfl, rfl, rfl, rfl, rfl⟩

theorem read_state (h : ReadCases env tcb out) : out.tcb.state = tcb.state := by
  cases h with
  | update n =>
      dsimp only
      rw [utcpOutput_state, setAcknow, takeBytes_state]
  | quiet n => exact takeBytes_state ..

theorem read_controls (h : ReadCases env tcb out) : Controls tcb out.log out.tcb := by
  cases h with
  | update n =>
      exact controls_composes.append (takeBytes_controls tcb n)
        (output_controls env.output (setAcknow_sameControl _))
  | quiet n => exact takeBytes_controls tcb n

theorem tcbStep_unexpired {In : TcpSegment → Prop}
    (h : TcbStep In (fun _ => False) tcb log tcb') : .expired .rexmt ∉ log := by
  cases h with
  | output h => cases h <;> simp
  | receive _ h => cases h <;> simp
  | ack _ h =>
      cases h with
      | rearm env =>
          unfold rearmRexmt
          split
          · simp
          · dsimp only
            split <;> simp
      | retransmit reading =>
          unfold utcpRetransmitSegment
          split
          · simp
          · unfold utcpSendSegment
            split <;> simp
      | _ => simp
  | timer h =>
      cases h with
      | rexmt _ _ _ hexpires => exact hexpires.elim
      | other timer _ hrexmt => simpa using Ne.symm hrexmt
      | _ => simp
  | opening h => cases h <;> simp

/-- Only the clock lets the retransmission timer expire. -/
theorem run_unexpired (hclock : ∀ envs, s ≠ .slowtimo envs) (h : e.run s = some (e', log)) :
    .expired .rexmt ∉ log := by
  have htrace : Trace (EndpointStep (fun _ => True) fun _ => False) e log e' :=
    run_trace (fun _ _ _ _ => trivial) (fun envs hs => absurd hs (hclock envs)) h
  have hevents := (htrace.events (I := fun _ => True) (G := fun event => event ≠ .expired .rexmt)
    (fun _ _ _ hstep _ => ⟨trivial, ?_⟩) trivial).2
  · exact fun hmem => hevents _ hmem rfl
  · cases hstep with
    | tcb h => exact fun event hmem heq => tcbStep_unexpired h (heq ▸ hmem)
    | _ => simp

/-- `cwnd` has been set, by the end of the handshake or by a timeout. -/
def Started (e : Endpoint) : Prop := e.tcb.state = .synRecv → .expired .rexmt ∈ e.history

/-- Congestion control over the life of an endpoint. -/
structure Controlled (e : Endpoint) : Prop where
  ccOps : e.tcb.ccOps = .newReno
  unopened : Receiving e.tcb → ¬ Started e → Unopened e.tcb
  floors : Receiving e.tcb → Started e → Floors True e.tcb

/-- A segment finds room in `cwnd` for one more segment. -/
def BelowCap (e : Endpoint) : Section → Prop
  | .input _ _ _ => e.tcb.cwnd.toNat ≤ windowCap
  | _ => True

theorem tcbStep_ccOps {In : TcpSegment → Prop} {Ex : U8 → Prop} (h : TcbStep In Ex tcb log tcb') :
    tcb'.ccOps = tcb.ccOps := by
  cases h with
  | output h => exact outputTrace_ccOps (.single h)
  | receive _ h =>
      obtain ⟨_, _, _, _, _, heq⟩ := receiveTrace_eq (.single h)
      rw [heq]
  | ack _ h =>
      cases h with
      | options env seg =>
          obtain ⟨_, _, _, _, heq⟩ := processWindowOption_eq env seg tcb
          rw [heq]
      | rearm env =>
          obtain ⟨_, _, heq⟩ := rearmRexmt_eq env tcb
          rw [heq]
          rfl
      | sample rttUs =>
          obtain ⟨_, _, _, heq⟩ := utcpXmitTimer_eq tcb rttUs
          rw [heq]
      | _ => rfl
  | timer h =>
      cases h with
      | rexmt env recover =>
          obtain ⟨_, _, heq⟩ := expireRexmt_eq env tcb recover
          rw [heq]
      | _ => rfl
  | opening h =>
      cases h with
      | syn env seg peer =>
          obtain ⟨_, _, _, _, heq⟩ := processWindowOption_eq env seg tcb
          rw [acceptSyn, heq]
      | synAck env seg =>
          rw [acceptSynAck, setTimer]
          obtain ⟨_, _, _, _, heq⟩ := processWindowOption_eq env seg _
          rw [heq]
      | _ => rfl

theorem endpointStep_ccOps {In : TcpSegment → Prop} {Ex : U8 → Prop}
    (h : EndpointStep In Ex e log e') : e'.tcb.ccOps = e.tcb.ccOps := by
  cases h with
  | tcb h => exact tcbStep_ccOps h
  | call => rfl
  | write => rfl
  | read n =>
      obtain ⟨_, _, heq⟩ := takeBytes_eq e.tcb n
      rw [heq]

/-- A section that leaves the state alone. -/
theorem Controlled.next (h : Controlled e) (hops : e'.tcb.ccOps = .newReno)
    (hstate : e'.tcb.state = e.tcb.state) (hhistory : e'.history = e.history ++ log)
    (hcontrols : Controls e.tcb log e'.tcb) : Controlled e' := by
  have hreceiving : Receiving e'.tcb → Receiving e.tcb := by
    rw [Receiving, hstate]
    exact id
  have hstarted : Started e' ↔ (Started e ∨ (e.tcb.state = .synRecv ∧ .expired .rexmt ∈ log)) := by
    rw [Started, Started, hstate, hhistory, List.mem_append]
    by_cases hrecv : e.tcb.state = .synRecv <;> simp [hrecv]
  refine ⟨hops, fun hafter hnot => ?_, fun hafter hnow => ?_⟩
  · rw [hstarted, not_or, not_and] at hnot
    have hrecv : e.tcb.state = .synRecv := (Classical.not_imp.mp hnot.1).1
    exact hcontrols.unopened (h.unopened (hreceiving hafter) hnot.1) (hnot.2 hrecv)
  · by_cases hbefore : Started e
    · exact hcontrols.floors (h.floors (hreceiving hafter) hbefore)
    · have hexpired := ((hstarted.mp hnow).resolve_left hbefore).2
      exact hcontrols.expires (h.unopened (hreceiving hafter) hbefore) hexpired

/-- Before the handshake nothing is promised. -/
theorem controlled_opening (hops : e.tcb.ccOps = .newReno) (hnot : ¬ Receiving e.tcb) :
    Controlled e :=
  ⟨hops, fun h => absurd h hnot, fun h => absurd h hnot⟩

theorem controlled_established (hops : e.tcb.ccOps = .newReno)
    (hstate : e.tcb.state = .established) (hfloors : Floors True e.tcb) : Controlled e := by
  refine ⟨hops, fun _ hnot => absurd (fun hother => ?_) hnot, fun _ _ => hfloors⟩
  exact absurd (hother.symm.trans hstate) (by decide)

theorem unopened_acceptSyn (h : Listening tcb) (env : Env) (seg : TcpSegment) (peer : Peer) :
    Unopened (acceptSyn env tcb seg peer) := by
  obtain ⟨ip, port, tIdle, rfl⟩ := h
  rw [acceptSyn]
  obtain ⟨_, _, _, _, heq⟩ := processWindowOption_eq env seg
    { utcpListen (utcpBind utcpSocket ip port) with tIdle }
  rw [heq]
  exact ⟨rfl, rfl, rfl, rfl⟩

theorem finalAck_floors {cc rest : Out} (hops : tcb.ccOps = .newReno)
    (hcc : congControl env (acceptFinalAck tcb seg) .init = some cc)
    (hrest : handleReceivedData env cc.tcb seg = some rest) : Floors True rest.tcb := by
  obtain ⟨recover, hinit⟩ := congControl_init env (acceptFinalAck tcb seg)
  rw [hinit] at hcc
  obtain ⟨hcwnd, hcc_ops, hfloors⟩ :
      cc.tcb.cwnd = mss * iw ∧ cc.tcb.ccOps = tcb.ccOps ∧ Floors True cc.tcb := by
    cases hcc
    exact ⟨rfl, rfl, floors_ccInit _ recover⟩
  have hcap : cc.tcb.cwnd.toNat ≤ windowCap := by
    rw [hcwnd]
    decide
  exact (received_control (hcc_ops.trans hops) hcap hrest).2 hfloors

theorem not_receiving {state : TcpState} (h : tcb.state = state)
    (hother : state ≠ .synRecv ∧ state ≠ .established) : ¬ Receiving tcb := by
  rw [Receiving, h]
  exact not_or.mpr hother

theorem run_controlled (hphase : Phase e) (h : Controlled e) (hcap : BelowCap e s)
    (hrun : e.run s = some (e', log)) : Controlled e' := by
  have htrace : Trace (EndpointStep (fun _ => True) fun _ => True) e log e' :=
    run_trace (fun _ _ _ _ => trivial) (fun _ _ _ => trivial) hrun
  have hops : e'.tcb.ccOps = .newReno :=
    htrace.invariant (I := fun e => e.tcb.ccOps = .newReno)
      (fun _ _ _ hstep h => (endpointStep_ccOps hstep).trans h) h.ccOps
  obtain ⟨out, hout, htcb, hlog, hhistory⟩ := run_cases hrun
  cases hphase with
  | idle hidle =>
      apply controlled_opening hops
      rw [htcb]
      rcases closed_cases hidle.state hout with ⟨env, ip, port, rfl⟩ | rfl
      · exact not_receiving (@Idle.connect _ [] hidle env ip port).1.state (by decide)
      · exact not_receiving hidle.state (by decide)
  | opening hopening =>
      rcases synSent_cases hopening.state hout with
        ⟨env, seg, peer, cc, -, -, hcc, hopened⟩ | rfl | ⟨envs, hslow⟩
      · obtain ⟨recover, hinit⟩ := congControl_init env (acceptSynAck env e.tcb seg)
        obtain rfl : _ = cc := Option.some.inj (hinit.symm.trans hcc)
        apply controlled_established hops
        · rw [htcb, hopened, utcpOutput_state]
          exact acceptSynAck_state ..
        · rw [htcb, hopened]
          exact floors_same (floors_same (floors_ccInit _ recover) (setAcknow_sameControl _))
            (utcpOutput_sameControl env.output _)
      · exact controlled_opening hops (htcb ▸ not_receiving hopening.state (by decide))
      · have hwaits := (slowtimo_waits hslow hopening).1
        exact controlled_opening hops (htcb ▸ not_receiving hwaits.state (by decide))
  | listening hlistening hnew =>
      rcases listen_cases hlistening.state hout with ⟨env, seg, peer, -, -, rfl⟩ | rfl | ⟨envs, hslow⟩
      · have hstate : e'.tcb.state = .synRecv := by
          rw [htcb, utcpOutput_state]
          rfl
        rw [hlog, hnew, List.nil_append] at hhistory
        refine ⟨hops, fun _ _ => ?_, fun _ hstarted => ?_⟩
        · rw [htcb]
          exact (unopened_acceptSyn hlistening env seg peer).same (utcpOutput_sameControl env.output _)
        · have hexpired := hstarted hstate
          rw [hhistory] at hexpired
          exact absurd hexpired (utcpOutput_silent env.output _ .rexmt)
      · exact controlled_opening hops (htcb ▸ not_receiving hlistening.state (by decide))
      · have hstill := (hlistening.slowtimo hslow).1
        exact controlled_opening hops (htcb ▸ not_receiving hstill.state (by decide))
  | receiving hreceiving =>
      rw [hlog] at hhistory
      have hnext : out.tcb.state = e.tcb.state → Controls e.tcb out.log out.tcb → Controlled e' := by
        intro hstate hcontrols
        rw [← htcb] at hstate hcontrols
        exact h.next hops hstate hhistory hcontrols
      cases hout with
      | connect env ip port hstate => exact absurd hreceiving (not_receiving hstate (by decide))
      | input env seg peer _ hin =>
          have hsilent : Event.expired .rexmt ∉ out.log := by
            rw [← hlog]
            exact run_unexpired (fun envs hs => by cases hs) hrun
          cases hin with
          | syn hstate => exact absurd hreceiving (not_receiving hstate (by decide))
          | synAck cc hstate => exact absurd hreceiving (not_receiving hstate (by decide))
          | finalAck cc rest hstate _ hcc hrest =>
              apply controlled_established hops
              · rw [htcb]
                obtain ⟨recover, hinit⟩ := congControl_init env (acceptFinalAck e.tcb seg)
                obtain rfl : _ = cc := Option.some.inj (hinit.symm.trans hcc)
                exact handleReceivedData_state hrest
              · rw [htcb]
                have hfloors : Floors True rest.tcb := finalAck_floors h.ccOps hcc hrest
                exact hfloors
          | received _ _ _ hrest =>
              obtain ⟨hunopened, hfloors⟩ := received_control h.ccOps hcap hrest
              exact hnext (handleReceivedData_state hrest)
                ⟨fun h _ => hunopened h, fun _ hexpired => absurd hexpired hsilent, hfloors⟩
          | ignored hnot => exact absurd hreceiving hnot
      | slowtimo envs _ hslow =>
          have hclock := @utcpSlowtimo_trace (fun _ => True) _ _ _ (fun _ => trivial) hslow
          exact hnext (clockTrace_state hclock) (slowtimo_controls hslow)
      | send envs bytes => exact hnext (sendLoop_state ..) (send_controls envs e.tcb bytes)
      | wake envs bytes => exact hnext (sendLoop_state ..) (send_controls envs e.tcb bytes)
      | read env len _ _ hread => exact hnext (read_state hread) (read_controls hread)

theorem reached_controlled (h : ReachedBy endpoints BelowCap e) : Controlled e := by
  apply h.invariant
  · rintro e ⟨ip, port, rfl | rfl⟩
    · exact controlled_opening rfl (@not_receiving _ .closed rfl (by decide))
    · exact controlled_opening rfl (@not_receiving _ .listen rfl (by decide))
  · rintro e s e' hreach hcontrolled hcap ⟨log, hrun⟩
    exact run_controlled (reachable_phase hreach.reachable) hcontrolled hcap hrun

/-- The final ACK of the handshake acknowledges nothing more to what follows. -/
theorem received_valid (h : received env tcb seg = some tcb')
    (hack : validAck tcb' seg.hdr.thAck) :
    tcb' = processWindowOption env seg tcb ∧ Receiving tcb := by
  unfold received at h
  split at h
  · rename_i hstate
    obtain ⟨cc, hcc, rfl⟩ := Option.map_eq_some_iff.mp h
    unfold synRecvInput at hcc
    split at hcc
    · have huna : cc.tcb.sndUna = seg.hdr.thAck := by
        obtain ⟨recover, hinit⟩ := congControl_init env (acceptFinalAck tcb seg)
        rw [hinit] at hcc
        cases hcc
        rfl
      have hall := (Frames.processWindowOption_sameSend env seg cc.tcb).sndUna.trans huna
      rw [validAck_self hall.symm] at hack
      cases hack
    · cases hcc
      exact ⟨rfl, .inl hstate⟩
  · rename_i hstate
    cases h
    exact ⟨rfl, .inr hstate⟩
  · cases h

theorem ack_survives (hops : tcb.ccOps = .newReno) (hcwnd : tcb.cwnd ≠ 0) (acked rttUs : U32) :
    (congControl env tcb (.ack acked rttUs)).isSome := by
  rw [congControl, hops]
  simp only [newRenoCongControl]
  split
  · rfl
  · rw [ccAimd_eq acked (.inr hcwnd)]
    rfl

/-- Where an ACK of new data reaches `new_reno`, `cwnd` is positive, and the process
survives the segment, exactly where the handshake is over or a timeout has set `cwnd`. -/
theorem division_defined_iff (h : ReachedBy endpoints BelowCap e) (peer : Peer)
    (hreceived : received env e.tcb seg = some tcb) (hack : validAck tcb seg.hdr.thAck) :
    (0 < (beforeAckEvent env tcb seg).tcb.cwnd ↔ Started e) ∧
      ((e.run (.input env seg peer)).isSome ↔ Started e) := by
  have hcontrolled := reached_controlled h
  obtain ⟨htcb, hreceiving⟩ := received_valid hreceived hack
  obtain ⟨hcwnd, hssthresh, hstate, hsame⟩ := beforeAckEvent_control env tcb seg
  have hoptions : SameControl e.tcb tcb := htcb ▸ options_sameControl env seg e.tcb
  have hops : (beforeAckEvent env tcb seg).tcb.ccOps = .newReno := by
    obtain ⟨_, _, _, _, heq⟩ := processWindowOption_eq env seg e.tcb
    rw [hsame, htcb, heq]
    exact hcontrolled.ccOps
  have hrun : (e.run (.input env seg peer)).isSome ↔
      (congControl env (beforeAckEvent env tcb seg).tcb
        (.ack (seg.hdr.thAck - tcb.sndUna) (measureRtt env seg (acceptAck tcb seg.hdr)).2)).isSome := by
    rw [Endpoint.run, utcpInput_received hreceived, handleAck, if_pos hack, Option.isSome_map,
      Option.isSome_map, Option.isSome_iff_exists, Option.isSome_iff_exists]
    constructor
    · rintro ⟨out, hout⟩
      obtain ⟨cc, hcc, -⟩ := Option.bind_eq_some_iff.mp hout
      exact ⟨cc, hcc⟩
    · rintro ⟨cc, hcc⟩
      exact ⟨_, congrArg (Option.bind · _) hcc⟩
  rw [hrun]
  by_cases hstarted : Started e
  · have hfloors := floors_same (hcontrolled.floors hreceiving hstarted) hoptions
    have hpos : 0 < (beforeAckEvent env tcb seg).tcb.cwnd := by
      rw [hcwnd, BitVec.lt_def]
      exact Nat.lt_of_lt_of_le (by decide) (hfloors.cwnd trivial)
    have hnonzero : (beforeAckEvent env tcb seg).tcb.cwnd ≠ 0 := fun hzero =>
      absurd (hzero ▸ hpos) (by decide)
    exact ⟨iff_of_true hpos hstarted, iff_of_true (ack_survives hops hnonzero _ _) hstarted⟩
  · have hunopened := (hcontrolled.unopened hreceiving hstarted).same hoptions
    have hzero := hcwnd.trans hunopened.cwnd
    rw [ack_killed hops hzero (hssthresh.trans hunopened.ssthresh) (hstate.trans hunopened.caState),
      hzero]
    exact ⟨iff_of_false (by decide) hstarted, iff_of_false (by decide) hstarted⟩

instance (e : Endpoint) (s : Section) : Decidable (BelowCap e s) :=
  match s with
  | .input _ _ _ => inferInstanceAs (Decidable (_ ≤ _))
  | .connect .. | .slowtimo .. | .send .. | .wake .. | .read .. => .isTrue trivial

/-- The SYN comes twice, and the retransmission timer expires. -/
def askedTwice : List Section :=
  [plain thSyn 0, plain thSyn 0] ++ List.replicate 100 (.slowtimo fun _ => .still 0)

/-- After the timeout, the ACK does not complete the handshake, and meets a window. -/
theorem division_defined_iff_expired :
    ∃ e tcb, ReachedBy endpoints BelowCap e ∧ e.tcb.state = .synRecv ∧
      received (.still 0) e.tcb (plainSegment thAck 1) = some tcb ∧
      0 < (beforeAckEvent (.still 0) tcb (plainSegment thAck 1)).tcb.cwnd ∧
      (e.run (.input (.still 0) (plainSegment thAck 1) ⟨0, 0⟩)).isSome := by
  have hends : (runAll (guarded BelowCap Endpoint.next)
      (.start (utcpListen (utcpBind utcpSocket 0 0))) askedTwice).map (fun e =>
        (decide (e.tcb.state = .synRecv), decide (.expired .rexmt ∈ e.history),
          (received (.still 0) e.tcb (plainSegment thAck 1)).any fun tcb => validAck tcb 1)) =
      some (true, true, true) := by
    decide +kernel
  obtain ⟨e, hrun, hends⟩ := Option.map_eq_some_iff.mp hends
  simp only [Prod.mk.injEq, decide_eq_true_eq, Option.any_eq_true] at hends
  obtain ⟨hstate, hexpired, tcb, hreceived, hack⟩ := hends
  have hreach : ReachedBy endpoints BelowCap e :=
    .runGuarded (fun _ _ h => h) (fun _ _ _ => endpoints_next) _ (.init ⟨0, 0, .inr rfl⟩) hrun
  obtain ⟨hcwnd, hsurvives⟩ := division_defined_iff hreach ⟨0, 0⟩ hreceived hack
  exact ⟨e, tcb, hreach, hstate, hreceived, hcwnd.mpr fun _ => hexpired,
    hsurvives.mpr fun _ => hexpired⟩

/-- The network duplicates the SYN, and the ACK of the client is delivered. -/
theorem division_by_zero :
    ¬ ∀ n, Reachable network n → ∀ seg ∈ n.inbox .server, ∀ tcb,
      received (.still 10) n.server.tcb seg = some tcb → validAck tcb seg.hdr.thAck →
        0 < (beforeAckEvent (.still 10) tcb seg).tcb.cwnd := by
  intro hdefined
  have hrun : (runAll Net.step Net.start
      [.run .client (.connect (.still 5) 2 20), .duplicate .server 0,
        .deliver .server (.still 6) 0, .deliver .server (.still 7) 0,
        .deliver .client (.still 8) 0]).map (fun n =>
      (n.inbox .server)[0]?.map fun seg =>
        (received (.still 10) n.server.tcb seg).any fun tcb =>
          validAck tcb seg.hdr.thAck &&
            (beforeAckEvent (.still 10) tcb seg).tcb.cwnd == 0) = some (some true) := by
    decide +kernel
  obtain ⟨n, hn, hcheck⟩ := Option.map_eq_some_iff.mp hrun
  obtain ⟨seg, hseg, hcheck⟩ := Option.map_eq_some_iff.mp hcheck
  simp only [Option.any_eq_true, Bool.and_eq_true, beq_iff_eq] at hcheck
  obtain ⟨tcb, hreceived, hack, hzero⟩ := hcheck
  have hpos := hdefined n (reachable_runAll hn) seg (List.mem_of_getElem? hseg) tcb hreceived hack
  rw [hzero] at hpos
  exact absurd hpos (by decide)

end Utcp.Divisions
