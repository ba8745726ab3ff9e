import Utcp.Sections

/-!
What the small steps leave alone: the receiver's half of the control block, and
the sender's.
-/

namespace Utcp.Frames

open Traces
open Utcp.Tcp
open Utcp.Utils
open Utcp.Output
open Utcp.CongestionControl
open Utcp.Timers
open Utcp.Input
open Utcp.Api
open Utcp.Steps
open Utcp.Sections

variable {In : TcpSegment → Prop} {Ex : U8 → Prop}

/-- Two blocks with the same receive buffer and reassembly queue. -/
structure SameReceive (tcb tcb' : Tcb) : Prop where
  irs : tcb'.irs = tcb.irs
  rcvNxt : tcb'.rcvNxt = tcb.rcvNxt
  recvBuf : tcb'.recvBuf = tcb.recvBuf
  recvBufHead : tcb'.recvBufHead = tcb.recvBufHead
  recvBufTail : tcb'.recvBufTail = tcb.recvBufTail
  oooHead : tcb'.oooHead = tcb.oooHead
  oooBytes : tcb'.oooBytes = tcb.oooBytes

/-- Two blocks with the same sequence variables and send buffer. -/
structure SameSend (tcb tcb' : Tcb) : Prop where
  state : tcb'.state = tcb.state
  iss : tcb'.iss = tcb.iss
  sndUna : tcb'.sndUna = tcb.sndUna
  sndNxt : tcb'.sndNxt = tcb.sndNxt
  sndMax : tcb'.sndMax = tcb.sndMax
  sendBuf : tcb'.sendBuf = tcb.sendBuf
  sendBufHead : tcb'.sendBufHead = tcb.sendBufHead
  sendBufTail : tcb'.sendBufTail = tcb.sendBufTail

@[refl] theorem SameReceive.refl (tcb : Tcb) : SameReceive tcb tcb :=
  ⟨rfl, rfl, rfl, rfl, rfl, rfl, rfl⟩

theorem SameReceive.trans {a b c : Tcb} (hab : SameReceive a b) (hbc : SameReceive b c) :
    SameReceive a c :=
  ⟨hbc.irs.trans hab.irs, hbc.rcvNxt.trans hab.rcvNxt, hbc.recvBuf.trans hab.recvBuf,
    hbc.recvBufHead.trans hab.recvBufHead, hbc.recvBufTail.trans hab.recvBufTail,
    hbc.oooHead.trans hab.oooHead, hbc.oooBytes.trans hab.oooBytes⟩

@[refl] theorem SameSend.refl (tcb : Tcb) : SameSend tcb tcb :=
  ⟨rfl, rfl, rfl, rfl, rfl, rfl, rfl, rfl⟩

theorem SameSend.trans {a b c : Tcb} (hab : SameSend a b) (hbc : SameSend b c) :
    SameSend a c :=
  ⟨hbc.state.trans hab.state, hbc.iss.trans hab.iss, hbc.sndUna.trans hab.sndUna,
    hbc.sndNxt.trans hab.sndNxt, hbc.sndMax.trans hab.sndMax, hbc.sendBuf.trans hab.sendBuf,
    hbc.sendBufHead.trans hab.sendBufHead, hbc.sendBufTail.trans hab.sendBufTail⟩

theorem SameReceive.bufUsed {tcb tcb' : Tcb} (h : SameReceive tcb tcb') :
    bufUsed tcb' = bufUsed tcb := by
  rw [Utils.bufUsed, Utils.bufUsed, h.recvBufTail, h.recvBufHead]

theorem advanceSndNxt_sameReceive (tcb : Tcb) (dataLength : U32) (newSynFin : Bool) :
    SameReceive tcb (advanceSndNxt tcb dataLength newSynFin) := by
  obtain ⟨_, _, _, heq⟩ := advanceSndNxt_eq tcb dataLength newSynFin
  rw [heq]
  exact ⟨rfl, rfl, rfl, rfl, rfl, rfl, rfl⟩

theorem outputStep_sameReceive {tcb tcb' : Tcb} {log : List Event}
    (h : OutputStep tcb log tcb') : SameReceive tcb tcb' := by
  cases h with
  | advance timeUs newSynFin hsyn hadvance => exact advanceSndNxt_sameReceive ..
  | _ => exact ⟨rfl, rfl, rfl, rfl, rfl, rfl, rfl⟩

theorem ackStep_sameReceive {tcb tcb' : Tcb} {log : List Event}
    (h : AckStep In tcb log tcb') : SameReceive tcb tcb' := by
  cases h with
  | options env seg hseg =>
      obtain ⟨_, _, _, _, heq⟩ := processWindowOption_eq env seg tcb
      rw [heq]
      exact ⟨rfl, rfl, rfl, rfl, rfl, rfl, rfl⟩
  | sample rttUs =>
      obtain ⟨_, _, _, heq⟩ := utcpXmitTimer_eq tcb rttUs
      rw [heq]
      exact ⟨rfl, rfl, rfl, rfl, rfl, rfl, rfl⟩
  | rearm env =>
      unfold rearmRexmt
      split
      · exact ⟨rfl, rfl, rfl, rfl, rfl, rfl, rfl⟩
      · exact ⟨rfl, rfl, rfl, rfl, rfl, rfl, rfl⟩
  | _ => exact ⟨rfl, rfl, rfl, rfl, rfl, rfl, rfl⟩

theorem timerStep_sameReceive {tcb tcb' : Tcb} {log : List Event}
    (h : TimerStep Ex tcb log tcb') : SameReceive tcb tcb' := by
  cases h with
  | rexmt env recover hticks hshift =>
      obtain ⟨_, _, heq⟩ := expireRexmt_eq env tcb recover
      rw [heq]
      exact ⟨rfl, rfl, rfl, rfl, rfl, rfl, rfl⟩
  | _ => exact ⟨rfl, rfl, rfl, rfl, rfl, rfl, rfl⟩

theorem trace_sameReceive {R : Tcb → List Event → Tcb → Prop}
    (hstep : ∀ tcb log tcb', R tcb log tcb' → SameReceive tcb tcb') {tcb tcb' : Tcb}
    {log : List Event} (h : Trace R tcb log tcb') : SameReceive tcb tcb' := by
  induction h with
  | nil tcb => exact .refl tcb
  | cons hR _ ih => exact (hstep _ _ _ hR).trans ih

theorem outputTrace_sameReceive {tcb tcb' : Tcb} {log : List Event}
    (h : Trace OutputStep tcb log tcb') : SameReceive tcb tcb' :=
  trace_sameReceive (fun _ _ _ hstep => outputStep_sameReceive hstep) h

theorem controlTrace_sameReceive {tcb tcb' : Tcb} {log : List Event}
    (h : Trace (ControlStep In) tcb log tcb') : SameReceive tcb tcb' := by
  refine trace_sameReceive (fun _ _ _ hstep => ?_) h
  cases hstep with
  | output h => exact outputStep_sameReceive h
  | ack h => exact ackStep_sameReceive h

theorem clockTrace_sameReceive {tcb tcb' : Tcb} {log : List Event}
    (h : Trace (ClockStep Ex) tcb log tcb') : SameReceive tcb tcb' := by
  refine trace_sameReceive (fun _ _ _ hstep => ?_) h
  cases hstep with
  | output h => exact outputStep_sameReceive h
  | timer h => exact timerStep_sameReceive h

theorem sendLoop_sameReceive (envs : Nat → Env) (fuel : Nat) :
    ∀ (turn : Nat) (tcb : Tcb) (remaining : List U8),
      SameReceive tcb (sendLoop envs fuel turn tcb remaining).1.tcb := by
  induction fuel with
  | zero => exact fun _ tcb _ => .refl tcb
  | succ fuel ih =>
      intro turn tcb remaining
      simp only [sendLoop]
      split
      · exact .refl tcb
      · have hwrite : ∀ chunk, SameReceive tcb (writeChunk tcb chunk) := by
          intro chunk
          rw [writeChunk]
          exact ⟨rfl, rfl, rfl, rfl, rfl, rfl, rfl⟩
        exact (hwrite _).trans
          ((outputTrace_sameReceive (utcpOutput_trace ..)).trans (ih _ _ _))

theorem receiveStep_sameSend {tcb tcb' : Tcb} {log : List Event}
    (h : ReceiveStep In tcb log tcb') : SameSend tcb tcb' := by
  have haccept : ∀ data, SameSend tcb (acceptBytes tcb data) := by
    intro data
    rw [acceptBytes]
    exact ⟨rfl, rfl, rfl, rfl, rfl, rfl, rfl, rfl⟩
  cases h with
  | accept seg data hseg hdata hroom => exact haccept data
  | drain entry rest hqueue hseq hroom =>
      have h := haccept entry.data
      exact ⟨h.state, h.iss, h.sndUna, h.sndNxt, h.sndMax, h.sendBuf, h.sendBufHead,
        h.sendBufTail⟩
  | _ => exact ⟨rfl, rfl, rfl, rfl, rfl, rfl, rfl, rfl⟩

theorem ackStep_sameSend {tcb tcb' : Tcb} {log : List Event}
    (h : AckStep (fun _ => False) tcb log tcb') : SameSend tcb tcb' := by
  cases h with
  | options env seg hseg => exact hseg.elim
  | ack seg hseg hack => exact hseg.elim
  | window seg hseg hack => exact hseg.elim
  | sample rttUs =>
      obtain ⟨_, _, _, heq⟩ := utcpXmitTimer_eq tcb rttUs
      rw [heq]
      exact ⟨rfl, rfl, rfl, rfl, rfl, rfl, rfl, rfl⟩
  | rearm env =>
      unfold rearmRexmt
      split
      · exact ⟨rfl, rfl, rfl, rfl, rfl, rfl, rfl, rfl⟩
      · exact ⟨rfl, rfl, rfl, rfl, rfl, rfl, rfl, rfl⟩
  | _ => exact ⟨rfl, rfl, rfl, rfl, rfl, rfl, rfl, rfl⟩

theorem ackTrace_sameSend {tcb tcb' : Tcb} {log : List Event}
    (h : Trace (AckStep fun _ => False) tcb log tcb') : SameSend tcb tcb' := by
  induction h with
  | nil tcb => exact .refl tcb
  | cons hstep _ ih => exact (ackStep_sameSend hstep).trans ih

theorem beforeAckEvent_sameSend (env : Env) (tcb : Tcb) (seg : TcpSegment) :
    SameSend (acceptAck tcb seg.hdr) (beforeAckEvent env tcb seg).tcb :=
  (ackTrace_sameSend (measureRtt_trace env seg _)).trans (ackStep_sameSend (.rearm _ env))

theorem processWindowOption_sameSend (env : Env) (seg : TcpSegment) (tcb : Tcb) :
    SameSend tcb (processWindowOption env seg tcb) := by
  obtain ⟨_, _, _, _, heq⟩ := processWindowOption_eq env seg tcb
  rw [heq]
  exact ⟨rfl, rfl, rfl, rfl, rfl, rfl, rfl, rfl⟩

end Utcp.Frames
