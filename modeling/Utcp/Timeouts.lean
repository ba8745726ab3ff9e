import Utcp.Opening

/-!
The expiry of the retransmission timer, in every state in which it may run.
-/

namespace Utcp.Timeouts

open TransitionSystems
open Traces
open SerialNumbers
open Utcp.Tcp
open Utcp.Utils
open Utcp.Output
open Utcp.CongestionControl
open Utcp.Timers
open Utcp.Input
open Utcp.Api
open Utcp.Network
open Utcp.Steps
open Utcp.Sections
open Utcp.Frames
open Utcp.SendLoop
open Utcp.Opening

variable {tcb tcb' : Tcb} {log : List Event} {env : Env}

@[simp] theorem advanceSndNxt_tfAcknow (tcb : Tcb) (dataLength : U32) (newSynFin : Bool) :
    (advanceSndNxt tcb dataLength newSynFin).tfAcknow = tcb.tfAcknow := by
  obtain ⟨_, _, _, heq⟩ := advanceSndNxt_eq tcb dataLength newSynFin
  rw [heq]

@[simp] theorem cancelDelack_tfAcknow (tcb : Tcb) :
    (cancelDelack tcb).tfAcknow = tcb.tfAcknow := by
  unfold cancelDelack
  split <;> rfl

theorem outputTurn_tfAcknow (reading : Reading) (flags : U8) (forceSend : Bool) (tcb : Tcb) :
    (outputTurn reading flags forceSend tcb).1.tcb.tfAcknow = tcb.tfAcknow := by
  simp only [outputTurn]
  split
  · rfl
  · split
    · exact cancelDelack_tfAcknow tcb
    · split
      · rw [advanceSndNxt_tfAcknow, cancelDelack_tfAcknow]
      · exact cancelDelack_tfAcknow tcb

theorem outputLoop_tfAcknow (readings : Nat → Reading) (flags : U8) (fuel : Nat) :
    ∀ (turn : Nat) (forceSend : Bool) (tcb : Tcb),
      (outputLoop readings flags fuel turn forceSend tcb).tcb.tfAcknow = tcb.tfAcknow := by
  induction fuel with
  | zero => exact fun _ _ _ => rfl
  | succ fuel ih =>
      intro turn forceSend tcb
      have hturn := outputTurn_tfAcknow (readings turn) flags forceSend tcb
      simp only [outputLoop]
      split
      · exact (ih _ _ _).trans hturn
      · exact hturn

@[simp] theorem utcpOutput_tfAcknow (readings : Nat → Reading) (tcb : Tcb) :
    (utcpOutput readings tcb).tcb.tfAcknow = false :=
  outputLoop_tfAcknow ..

theorem reaction_tfAcknow {out : Out} (h : Reaction env tcb out) (hnone : tcb.tfAcknow = false) :
    out.tcb.tfAcknow = false := by
  cases h with
  | change => exact hnone
  | retransmit => exact hnone
  | burst cwnd => exact utcpOutput_tfAcknow ..

theorem rearmRexmt_tfAcknow (env : Env) (tcb : Tcb) :
    (rearmRexmt env tcb).tcb.tfAcknow = tcb.tfAcknow := by
  unfold rearmRexmt
  split <;> rfl

theorem measureRtt_tfAcknow (env : Env) (seg : TcpSegment) (tcb : Tcb) :
    (measureRtt env seg tcb).1.tfAcknow = tcb.tfAcknow := by
  have hsample : ∀ rttUs, (utcpXmitTimer tcb rttUs).tfAcknow = tcb.tfAcknow := by
    intro rttUs
    obtain ⟨_, _, _, heq⟩ := utcpXmitTimer_eq tcb rttUs
    rw [heq]
  unfold measureRtt
  split
  · split
    · split
      · rfl
      · exact hsample _
    · rfl
  · split
    · exact hsample _
    · rfl

theorem handleAck_tfAcknow {seg : TcpSegment} {out : Out} (hnone : tcb.tfAcknow = false)
    (h : handleAck env tcb seg = some out) : out.tcb.tfAcknow = false := by
  simp only [handleAck] at h
  split at h
  · obtain ⟨cc, hcc, hout⟩ := Option.bind_eq_some_iff.mp h
    cases hout
    have hreaction : Reaction env (beforeAckEvent env tcb seg).tcb cc :=
      congControl_reaction (by simp) hcc
    have hbefore : (beforeAckEvent env tcb seg).tcb.tfAcknow = false := by
      rw [beforeAckEvent, rearmRexmt_tfAcknow, measureRtt_tfAcknow]
      exact hnone
    have hafter : cc.tcb.tfAcknow = false := reaction_tfAcknow hreaction hbefore
    exact hafter
  · split at h
    · simp only [handleSameAck] at h
      split at h
      · cases h
        exact hnone
      · split at h
        · exact reaction_tfAcknow (congControl_reaction (by simp) h) hnone
        · cases h
          exact hnone
    · cases h
      exact hnone

theorem output_tfAcknow (readings : Nat → Reading) (tcb : Tcb) (log : List Event) :
    (Out.mk (utcpOutput readings tcb).tcb log).tcb.tfAcknow = false :=
  utcpOutput_tfAcknow readings tcb

theorem placeData_tfAcknow (env : Env) (seqNum : U32) (data : List U8)
    (hnone : tcb.tfAcknow = false) : (placeData env tcb seqNum data).tcb.tfAcknow = false := by
  by_cases hseq : seqNum = tcb.rcvNxt
  · rw [hseq]
    by_cases hroom : data.length ≤ (recvBufSize - bufUsed tcb - tcb.oooBytes).toNat
    · rw [placeData_fits env hroom]
      exact output_tfAcknow _ _ _
    · rw [placeData_full env hroom]
      exact hnone
  · rw [placeData_other env data hseq]
    exact output_tfAcknow _ _ _

theorem handleData_tfAcknow (env : Env) (seg : TcpSegment) (hnone : tcb.tfAcknow = false) :
    (handleData env tcb seg).tcb.tfAcknow = false := by
  simp only [handleData]
  split
  · exact utcpOutput_tfAcknow ..
  · split
    · split
      · exact utcpOutput_tfAcknow ..
      · exact placeData_tfAcknow _ _ _ hnone
    · exact placeData_tfAcknow _ _ _ hnone

theorem handleReceivedData_tfAcknow {seg : TcpSegment} {out : Out} (hnone : tcb.tfAcknow = false)
    (h : handleReceivedData env tcb seg = some out) : out.tcb.tfAcknow = false := by
  obtain ⟨acked, hacked, hout⟩ := Option.bind_eq_some_iff.mp h
  cases hout
  refine handleData_tfAcknow env seg (handleAck_tfAcknow ?_ hacked)
  obtain ⟨_, _, _, _, heq⟩ := processWindowOption_eq env seg tcb
  rw [heq]
  exact hnone

theorem utcpInput_tfAcknow {seg : TcpSegment} {peer : Peer} {out : Out}
    (hnone : tcb.tfAcknow = false) (h : utcpInput env tcb seg peer = some out) :
    out.tcb.tfAcknow = false := by
  unfold utcpInput at h
  split at h
  · split at h
    · cases h
      exact utcpOutput_tfAcknow ..
    · cases h
      exact hnone
  · split at h
    · obtain ⟨recover, hinit⟩ := congControl_init env (acceptSynAck env tcb seg)
      rw [hinit] at h
      cases h
      exact utcpOutput_tfAcknow ..
    · cases h
      exact hnone
  · obtain ⟨cc, hcc, h⟩ := Option.bind_eq_some_iff.mp h
    obtain ⟨rest, hrest, hout⟩ := Option.bind_eq_some_iff.mp h
    cases hout
    have hopened : cc.tcb.tfAcknow = false := by
      unfold synRecvInput at hcc
      split at hcc
      · obtain ⟨recover, hinit⟩ := congControl_init env (acceptFinalAck tcb seg)
        rw [hinit] at hcc
        cases hcc
        exact hnone
      · cases hcc
        exact hnone
    have hafter : rest.tcb.tfAcknow = false := handleReceivedData_tfAcknow hopened hrest
    exact hafter
  · exact handleReceivedData_tfAcknow hnone h
  · cases h
    exact hnone

theorem tickTimer_tfAcknow {timer : Timer} {out : Out} (hnone : tcb.tfAcknow = false)
    (h : tickTimer env tcb timer = some out) : out.tcb.tfAcknow = false := by
  simp only [tickTimer] at h
  split at h
  · split at h
    · cases timer with
      | rexmt =>
          obtain ⟨recover, heq⟩ := utcpTimers_rexmt env tcb
          rw [heq] at h
          cases h
          exact utcpOutput_tfAcknow ..
      | delack =>
          cases h
          exact utcpOutput_tfAcknow ..
      | _ =>
          cases h
          exact hnone
    · cases h
      exact hnone
  · cases h
    exact hnone

theorem tickTimers_tfAcknow {envs : Timer → Env} (timers : List Timer) :
    ∀ {tcb : Tcb} {out : Out}, tcb.tfAcknow = false → tickTimers envs timers tcb = some out →
      out.tcb.tfAcknow = false := by
  induction timers with
  | nil =>
      intro tcb out hnone h
      cases h
      exact hnone
  | cons timer timers ih =>
      intro tcb out hnone h
      obtain ⟨first, hfirst, h⟩ := Option.bind_eq_some_iff.mp h
      obtain ⟨rest, hrest, h⟩ := Option.bind_eq_some_iff.mp h
      cases h
      have hafter : rest.tcb.tfAcknow = false := ih (tickTimer_tfAcknow hnone hfirst) hrest
      exact hafter

theorem utcpSlowtimo_tfAcknow {envs : Timer → Env} {out : Out} (hnone : tcb.tfAcknow = false)
    (h : utcpSlowtimo envs tcb = some out) : out.tcb.tfAcknow = false := by
  unfold utcpSlowtimo at h
  split at h
  · cases h
    exact hnone
  · have hclock : ∀ t : Tcb, t.tfAcknow = false → tickTimers envs Timer.all t = some out →
        out.tcb.tfAcknow = false := fun _ => tickTimers_tfAcknow _
    refine hclock _ ?_ h
    exact hnone

theorem sendLoop_tfAcknow (envs : Nat → Env) (fuel : Nat) :
    ∀ (turn : Nat) (tcb : Tcb) (remaining : List U8), tcb.tfAcknow = false →
      (sendLoop envs fuel turn tcb remaining).1.tcb.tfAcknow = false := by
  induction fuel with
  | zero => exact fun _ _ _ hnone => hnone
  | succ fuel ih =>
      intro turn tcb remaining hnone
      simp only [sendLoop]
      split
      · exact hnone
      · exact ih _ _ _ (utcpOutput_tfAcknow ..)

theorem takeBytes_tfAcknow (tcb : Tcb) (n : Nat) :
    (takeBytes tcb n).tfAcknow = tcb.tfAcknow := by
  rw [takeBytes]

theorem utcpRead_tfAcknow (env : Env) (len : Nat) (hnone : tcb.tfAcknow = false) :
    (utcpRead env tcb len).1.tcb.tfAcknow = false := by
  simp only [utcpRead]
  split
  · exact utcpOutput_tfAcknow env.output _
  · exact (takeBytes_tfAcknow ..).trans hnone

theorem afterRead_tcb (e : Endpoint) (result : Out × List U8) :
    (e.afterRead result).1.tcb = result.1.tcb := rfl

theorem utcpConnect_tfAcknow (env : Env) (tcb : Tcb) (ip : U32) (port : U16) :
    (utcpConnect env tcb ip port).tcb.tfAcknow = false :=
  utcpOutput_tfAcknow ..

theorem run_tfAcknow {e e' : Endpoint} {s : Section} (hnone : e.tcb.tfAcknow = false)
    (h : e.run s = some (e', log)) : e'.tcb.tfAcknow = false := by
  cases s with
  | connect env ip port =>
      simp only [Endpoint.run] at h
      split at h
      · cases h
        exact utcpConnect_tfAcknow ..
      · cases h
  | input env seg peer =>
      obtain ⟨out, hout, h⟩ := Option.map_eq_some_iff.mp h
      cases h
      exact utcpInput_tfAcknow hnone hout
  | slowtimo envs =>
      obtain ⟨out, hout, h⟩ := Option.map_eq_some_iff.mp h
      cases h
      exact utcpSlowtimo_tfAcknow hnone hout
  | send envs bytes =>
      simp only [Endpoint.run] at h
      split at h
      · cases h
        exact sendLoop_tfAcknow envs _ 0 e.tcb bytes hnone
      · cases h
  | wake envs =>
      simp only [Endpoint.run] at h
      split at h
      · cases h
        exact sendLoop_tfAcknow envs _ 0 e.tcb e.pending hnone
      · cases h
  | read env len =>
      simp only [Endpoint.run] at h
      split at h
      · have hread : (e.afterRead (utcpRead env e.tcb len)).1 = e' :=
          congrArg Prod.fst (Option.some.inj h)
        rw [← hread, afterRead_tcb]
        exact utcpRead_tfAcknow env len hnone
      · cases h

/-- Between critical sections `TF_ACKNOW` is never set. -/
theorem reachable_tfAcknow {e : Endpoint} (h : Reachable endpoints e) : e.tcb.tfAcknow = false := by
  apply h.invariant
  · rintro e ⟨ip, port, rfl | rfl⟩
    · rfl
    · rfl
  · rintro e s e' - hnone - ⟨log, hrun⟩
    exact run_tfAcknow hnone hrun

/-- Bytes written by the application lie at or above `snd_una`. -/
def WrittenBeyondUna (tcb : Tcb) : Prop :=
  (if seqGt tcb.sndUna tcb.iss then tcb.sndUna - tcb.iss - 1 else 0) < tcb.sendBufTail

instance (tcb : Tcb) : Decidable (WrittenBeyondUna tcb) := inferInstanceAs (Decidable (_ < _))

theorem outputBuffered_pos_iff (hflight : tcb.sndNxt = tcb.sndUna) :
    0 < (outputBuffered tcb).toNat ↔ WrittenBeyondUna tcb := by
  have hrest : ∀ sent : U32,
      0 < (if tcb.sendBufTail > sent then tcb.sendBufTail - sent else 0).toNat ↔
        sent < tcb.sendBufTail := by
    intro sent
    split
    · rename_i hlt
      have hlt' : sent.toNat < tcb.sendBufTail.toNat := hlt
      rw [toNat_sub_of_ge (Nat.le_of_lt hlt')]
      exact iff_of_true (by omega) hlt
    · rename_i hge
      exact iff_of_false (by decide) hge
  rw [outputBuffered, hflight]
  exact hrest _

theorem outputLength_pos_iff (hstate : tcb.state = .established) (hflight : tcb.sndNxt = tcb.sndUna)
    (hwindow : 0 < (sendWindow tcb).toNat) :
    0 < (outputLength tcb).toNat ↔ WrittenBeyondUna tcb := by
  have hlen : (outputLength tcb).toNat =
      min mss.toNat (min (outputBuffered tcb).toNat (sendWindow tcb).toNat) := by
    have hempty : tcb.sndNxt - tcb.sndUna = 0#32 := by
      rw [hflight]
      exact BitVec.sub_self _
    have hidle : ∀ len : U32, ¬ (len > 0 ∧ len < mss ∧ 0#32 > 0) :=
      fun len hnagle => absurd hnagle.2.2 (by decide)
    have hopen : sendWindow tcb > 0#32 := hwindow
    simp only [outputLength]
    rw [if_pos hstate, hempty, if_pos hopen, if_neg (hidle _), BitVec.sub_zero]
    exact (smaller_toNat _ _).trans (congrArg (min mss.toNat) (smaller_toNat _ _))
  rw [hlen, ← outputBuffered_pos_iff hflight]
  have hmss := mss_toNat
  omega

theorem firstSegment_iff (readings : Nat → Reading) (hstate : tcb.state = .established)
    (hnone : tcb.tfAcknow = false) :
    (∃ seg ∈ segments (utcpOutput readings tcb).log, seg.hdr.thSeq = tcb.sndNxt) ↔
      (readings 0).alloc = true ∧ 0 < (outputLength tcb).toNat := by
  have hend := @outputTurn_end { tcb with tfAcknow := false } (readings 0) tcb.tfAcknow hstate
  have hruns := utcpOutput_runs readings hstate
  have hflags : tcpOutflags tcb.state = thAck := congrArg tcpOutflags hstate
  dsimp only at hend
  rw [hflags] at hend
  generalize utcpOutput readings tcb = result at hruns ⊢
  cases hruns with
  | stop hturn =>
      rw [hturn] at hend
      cases hend with
      | silent hcause hlog =>
          rw [hlog]
          refine iff_of_false (by simp) ?_
          rintro ⟨halloc, hpos⟩
          rcases hcause with hzero | hfailed
          · have hzero' : outputLength tcb = 0 := hzero
            rw [hzero'] at hpos
            exact absurd hpos (by decide)
          · rw [hfailed] at halloc
            cases halloc
      | empty hforce => exact absurd (hnone.symm.trans hforce) (by decide)
  | again hturn hrest =>
      rw [hturn] at hend
      cases hend with
      | data halloc hpos seg hlog hseq =>
          refine iff_of_true ⟨seg, ?_, hseq⟩ ⟨halloc, hpos⟩
          rw [segments_append, hlog]
          exact List.mem_append_left _ (List.mem_singleton.mpr rfl)

theorem tickTimer_rexmt (env : Env) (hexpires : tcb.tTimer .rexmt = 1) :
    ∃ recover,
      tickTimer env tcb .rexmt =
        some
          ⟨(utcpOutput env.output (expireRexmt env tcb recover)).tcb,
            [.expired .rexmt, .backoff (tcb.tRxtshift + 1).toNat] ++
              (utcpOutput env.output (expireRexmt env tcb recover)).log⟩ := by
  obtain ⟨recover, heq⟩ := utcpTimers_rexmt env tcb
  refine ⟨recover, ?_⟩
  have hpos : 0 < (tcb.tTimer .rexmt).toInt := by
    rw [hexpires]
    decide
  have hzero : (setTimer tcb .rexmt (tcb.tTimer .rexmt - 1)).tTimer .rexmt = 0 := by
    rw [hexpires]
    rfl
  rw [tickTimer, if_pos hpos]
  dsimp only
  rw [if_pos hzero]
  exact heq

theorem utcpOutput_outstanding (readings : Nat → Reading) (hstate : tcb.state ≠ .established)
    (hnone : tcb.tfAcknow = false) (houtstanding : tcb.sndNxt ≠ tcb.sndMax) :
    utcpOutput readings tcb = ⟨tcb, []⟩ := by
  have hsyn : sendingNewSynFin (tcpOutflags tcb.state) tcb = false := by
    rw [sendingNewSynFin, beq_eq_false_iff_ne.mpr houtstanding, Bool.and_false]
  have hends := utcpOutput_ends readings hstate
  generalize utcpOutput readings tcb = out at hends ⊢
  cases hends with
  | quiet => rw [← hnone]
  | failed halloc hcause =>
      rw [hsyn, hnone] at hcause
      simp at hcause
  | bare hsyn' hforce =>
      rw [hnone] at hforce
      cases hforce
  | syn hsyn' =>
      rw [hsyn] at hsyn'
      cases hsyn'

theorem expireRexmt_output (hnone : tcb.tfAcknow = false) (houtstanding : tcb.sndUna ≠ tcb.sndMax)
    (hwindow : tcb.state = .established → tcb.sndWnd ≠ 0) (recover : U32) :
    (∃ seg ∈ segments (utcpOutput env.output (expireRexmt env tcb recover)).log,
        seg.hdr.thSeq = tcb.sndUna) ↔
      tcb.state = .established ∧ (env.output 0).alloc = true ∧ WrittenBeyondUna tcb := by
  obtain ⟨tTimer, ssthresh, heq⟩ := expireRexmt_eq env tcb recover
  have hnxt : (expireRexmt env tcb recover).sndNxt = tcb.sndUna := by rw [heq]
  have hnone' : (expireRexmt env tcb recover).tfAcknow = false := by
    rw [heq]
    exact hnone
  have hsame : (expireRexmt env tcb recover).state = tcb.state := by rw [heq]
  by_cases hstate : tcb.state = .established
  · have hopen : 0 < (sendWindow (expireRexmt env tcb recover)).toNat := by
      have hne : tcb.sndWnd.toNat ≠ 0 := fun h => hwindow hstate (BitVec.eq_of_toNat_eq h)
      have hmss := mss_toNat
      rw [sendWindow_toNat, heq]
      dsimp only
      omega
    have hlen : 0 < (outputLength (expireRexmt env tcb recover)).toNat ↔ WrittenBeyondUna tcb := by
      rw [outputLength_pos_iff (hsame.trans hstate) (by rw [heq]) hopen, heq]
      exact Iff.rfl
    have hfirst := firstSegment_iff env.output (hsame.trans hstate) hnone'
    rw [hlen, hnxt] at hfirst
    rw [hfirst]
    exact (and_iff_right hstate).symm
  · have hmax : (expireRexmt env tcb recover).sndMax = tcb.sndMax := by rw [heq]
    rw [utcpOutput_outstanding env.output (by rwa [hsame]) hnone' (by rwa [hnxt, hmax])]
    refine iff_of_false (by simp) ?_
    rintro ⟨hstate', -⟩
    exact hstate hstate'

/-- The expiry of the retransmission timer emits a segment from `snd_una` on
exactly in `TCP_ESTABLISHED`, where there are bytes to send and memory for them. -/
theorem timeout_retransmits_iff {e : Endpoint} (hreach : Reachable endpoints e)
    (hstate : e.tcb.state = .synSent ∨ e.tcb.state = .synRecv ∨
      e.tcb.state = .established ∧ e.tcb.sndWnd ≠ 0)
    (houtstanding : e.tcb.sndUna ≠ e.tcb.sndMax) (hexpires : e.tcb.tTimer .rexmt = 1)
    {env : Env} {tIdle tRtt : U32} {out : Out}
    (hout : tickTimer env { e.tcb with tIdle, tRtt } .rexmt = some out) :
    (∃ seg ∈ segments out.log, seg.hdr.thSeq = e.tcb.sndUna) ↔
      e.tcb.state = .established ∧ (env.output 0).alloc = true ∧ WrittenBeyondUna e.tcb := by
  let ticked : Tcb := { e.tcb with tIdle, tRtt }
  obtain ⟨recover, htick⟩ := @tickTimer_rexmt ticked env hexpires
  have hwindow : ticked.state = .established → ticked.sndWnd ≠ 0 := by
    intro hestablished
    rcases hstate with hsent | hrecv | ⟨-, hwindow⟩
    · exact absurd (hsent.symm.trans hestablished) (by decide)
    · exact absurd (hrecv.symm.trans hestablished) (by decide)
    · exact hwindow
  have hoff : ticked.tfAcknow = false := reachable_tfAcknow hreach
  have hiff := @expireRexmt_output ticked env hoff houtstanding hwindow recover
  rw [htick] at hout
  cases hout
  exact hiff

/-- The clock of a client ticks until the next tick lets the timer expire. -/
def untilExpiry : List Action := List.replicate 99 (.run .client (.slowtimo fun _ => .still 9))

/-- A block whose retransmission timer expires with something outstanding. -/
def AboutToExpire (tcb : Tcb) : Prop :=
  tcb.sndUna ≠ tcb.sndMax ∧ tcb.tRxtshift.toNat < tcpMaxrxtshift ∧ tcb.tTimer .rexmt = 1

instance (tcb : Tcb) : Decidable (AboutToExpire tcb) := inferInstanceAs (Decidable (_ ∧ _))

theorem client_spec {actions : List Action} {check : Tcb → Bool}
    (h : (runAll Net.step Net.start actions).map (fun n => check n.client.tcb) = some true) :
    ∃ n, Reachable network n ∧ check n.client.tcb = true := by
  obtain ⟨n, hn, hcheck⟩ := Option.map_eq_some_iff.mp h
  exact ⟨n, reachable_runAll hn, hcheck⟩

/-- A byte is lost: its retransmission. -/
theorem timeout_retransmits_byte :
    ∃ e : Endpoint, e.tcb.state = .established ∧ ∃ out,
      tickTimer (.still 9) { e.tcb with tIdle := 0, tRtt := 0 } .rexmt = some out ∧
      ((∃ seg ∈ segments out.log, seg.hdr.thSeq = e.tcb.sndUna) ↔
        e.tcb.state = .established ∧ ((Env.still 9).output 0).alloc = true ∧
          WrittenBeyondUna e.tcb) := by
  let actions : List Action :=
    [.run .client (.connect (.still 5) 2 20), .deliver .server (.still 6) 0,
      .deliver .client (.still 7) 0, .run .client (.send (fun _ => .still 8) [65])]
  obtain ⟨n, hn, hcheck⟩ := @client_spec (actions ++ untilExpiry)
    (fun tcb => decide (tcb.state = .established ∧ tcb.sndWnd ≠ 0 ∧ AboutToExpire tcb))
    (by decide +kernel)
  obtain ⟨hstate, hwindow, houtstanding, -, hexpires⟩ := of_decide_eq_true hcheck
  obtain ⟨recover, hout⟩ :=
    @tickTimer_rexmt { n.client.tcb with tIdle := 0, tRtt := 0 } (.still 9) hexpires
  exact ⟨n.client, hstate, _, hout,
    timeout_retransmits_iff (endpoint_reachable hn .client) (.inr (.inr ⟨hstate, hwindow⟩))
      houtstanding hexpires hout⟩

/-- The SYN is lost: the expiry of its timer sends nothing. -/
theorem timeout_sends_nothing :
    ∃ n, Reachable network n ∧ n.client.tcb.state = .synSent ∧ AboutToExpire n.client.tcb ∧
      ∃ tIdle tRtt out,
        tickTimer (.still 9) { n.client.tcb with tIdle, tRtt } .rexmt = some out ∧
          segments out.log = [] := by
  obtain ⟨n, hn, hcheck⟩ :=
    @client_spec ([.run .client (.connect (.still 5) 2 20)] ++ untilExpiry)
      (fun tcb => decide (tcb.state = .synSent ∧ AboutToExpire tcb) &&
        ((tickTimer (.still 9) { tcb with tIdle := tcb.tIdle + 1 } .rexmt).map
          fun out => segments out.log) == some [])
      (by decide +kernel)
  rw [Bool.and_eq_true, beq_iff_eq] at hcheck
  obtain ⟨hstate, hexpires⟩ := of_decide_eq_true hcheck.1
  obtain ⟨out, hout, hnothing⟩ := Option.map_eq_some_iff.mp hcheck.2
  exact ⟨n, hn, hstate, hexpires, n.client.tcb.tIdle + 1, n.client.tcb.tRtt, out, hout, hnothing⟩

end Utcp.Timeouts
