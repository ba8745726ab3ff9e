import Utcp.Backoff
import Utcp.Estimator
import Utcp.Stalls
import Utcp.Reliable

/-!
The retransmission timer of the endpoint that opened the connection: it runs exactly
while something is outstanding.
-/

namespace Utcp.Rearming

open TransitionSystems
open Traces
open Utcp.Tcp
open Utcp.Utils
open Utcp.Output
open Utcp.Timers
open Utcp.Input
open Utcp.Api
open Utcp.Network
open Utcp.Steps
open Utcp.Sections
open Utcp.SectionCases
open Utcp.Receiver
open Utcp.Sender
open Utcp.Backoff
open Utcp.Reliable

variable {In : TcpSegment → Prop} {tcb tcb' : Tcb} {log : List Event} {e e' : Endpoint}
  {s : Section} {n n' : Net} {a : Action} {env : Env} {Ex : U8 → Prop} {written : List U8}
  {limit : Nat}

/-- What the retransmission timer is set to fits its `short`. -/
structure Timed (tcb : Tcb) : Prop where
  shift : tcb.tRxtshift.toNat ≤ tcpMaxrxtshift
  lower : 0 < tcb.tRxtcur.toNat
  upper : tcb.tRxtcur.toNat ≤ tcptvRexmtmax.toNat
  ticks : (tcb.tTimer .rexmt).toNat ≤ tcptvRexmtmax.toNat

/-- The timer runs while something is outstanding. -/
def Armed (tcb : Tcb) : Prop := tcb.sndUna ≠ tcb.sndMax → tcb.tTimer .rexmt ≠ 0

/-- What a step other than those of the handshake leaves true. -/
structure Keeps (tcb tcb' : Tcb) : Prop where
  timed : Timed tcb'
  armed : Armed tcb → Armed tcb'

theorem tcpBackoff_bounds (env : Env) {index : Nat} (hindex : index ≤ tcpMaxrxtshift) :
    0 < (tcpBackoff env index).toNat ∧ (tcpBackoff env index).toNat ≤ 64 := by
  have htable : ∀ index ≤ tcpMaxrxtshift,
      0 < (tcpBackoffTable.getD index 0).toNat ∧ (tcpBackoffTable.getD index 0).toNat ≤ 64 := by
    decide
  rw [tcpBackoff_eq env (Nat.lt_succ_of_le hindex)]
  exact htable index hindex

theorem backedOff_capped {base factor : U32} (hbase : 0 < base.toNat)
    (hbase' : base.toNat ≤ tcptvRexmtmax.toNat) (hfactor : 0 < factor.toNat)
    (hfactor' : factor.toNat ≤ 64) :
    0 < (backedOff base factor).toNat ∧ (backedOff base factor).toNat ≤ tcptvRexmtmax.toNat := by
  have hmax : tcptvRexmtmax.toNat = 6400 := rfl
  have hmaxInt : tcptvRexmtmax.toInt = 6400 := rfl
  have hpos : 0 < base.toNat * factor.toNat := Nat.mul_pos hbase hfactor
  have hle : base.toNat * factor.toNat ≤ 6400 * 64 := Nat.mul_le_mul (hmax ▸ hbase') hfactor'
  have hproduct : (base * factor).toNat = base.toNat * factor.toNat := by
    rw [BitVec.toNat_mul, Nat.mod_eq_of_lt (by omega)]
  have hint : (base * factor).toInt = (base.toNat * factor.toNat : Nat) := by
    rw [BitVec.toInt_eq_toNat_cond, hproduct, if_pos (by omega)]
  simp only [backedOff]
  rw [hint, hmaxInt, hmax, BitVec.toNat_ofInt]
  split
  · decide
  · omega

theorem Timed.backedOff_bounds (h : Timed tcb) (env : Env) {shift : U8}
    (hshift : shift.toNat ≤ tcpMaxrxtshift) :
    0 < (backedOff tcb.tRxtcur (tcpBackoff env shift.toNat)).toNat ∧
      (backedOff tcb.tRxtcur (tcpBackoff env shift.toNat)).toNat ≤ tcptvRexmtmax.toNat := by
  obtain ⟨hpos, hle⟩ := tcpBackoff_bounds env hshift
  exact backedOff_capped h.lower h.upper hpos hle

theorem Timed.narrowed (h : Timed tcb) :
    0 < (tcb.tRxtcur.setWidth 16).toNat ∧
      (tcb.tRxtcur.setWidth 16).toNat ≤ tcptvRexmtmax.toNat := by
  have hmax : tcptvRexmtmax.toNat = 6400 := rfl
  have hupper := h.upper
  have hlower := h.lower
  rw [BitVec.toNat_setWidth, Nat.mod_eq_of_lt (by omega)]
  exact ⟨hlower, hupper⟩

theorem Timed.rearmTicks_bounds (h : Timed tcb) (env : Env) :
    0 < (rearmTicks env tcb).toNat ∧ (rearmTicks env tcb).toNat ≤ tcptvRexmtmax.toNat := by
  rw [Input.rearmTicks]
  split
  · exact h.backedOff_bounds env h.shift
  · exact h.narrowed

theorem ne_zero_of_toNat {ticks : U16} (h : 0 < ticks.toNat) : ticks ≠ 0 := by
  rintro rfl
  exact absurd h (by decide)

theorem Timed.expired (h : Timed tcb) (env : Env) (recover : U32) :
    (expireRexmt env tcb recover).tTimer .rexmt =
      backedOff tcb.tRxtcur (tcpBackoff env (tcb.tRxtshift + 1).toNat) := by
  have hpos : tcb.tRxtcur > 0 := h.lower
  rw [expireRexmt_rexmt]
  exact newTimer_running env hpos

theorem advanceSndNxt_rexmt (tcb : Tcb) (dataLength : U32) (newSynFin : Bool) :
    (advanceSndNxt tcb dataLength newSynFin).tTimer .rexmt =
      if tcb.tTimer .rexmt = 0 then tcb.tRxtcur.setWidth 16 else tcb.tTimer .rexmt := by
  rw [advanceSndNxt_tTimer]
  unfold armRexmt
  split
  · simp [setTimer]
  · rfl

theorem keeps_of_same (h : Timed tcb) (hshift : tcb'.tRxtshift = tcb.tRxtshift)
    (hcur : tcb'.tRxtcur = tcb.tRxtcur) (htimer : tcb'.tTimer .rexmt = tcb.tTimer .rexmt)
    (huna : tcb'.sndUna = tcb.sndUna) (hmax : tcb'.sndMax = tcb.sndMax) : Keeps tcb tcb' := by
  refine ⟨⟨?_, ?_, ?_, ?_⟩, fun harmed => ?_⟩
  · rw [hshift]
    exact h.shift
  · rw [hcur]
    exact h.lower
  · rw [hcur]
    exact h.upper
  · rw [htimer]
    exact h.ticks
  · rw [Armed, huna, hmax, htimer]
    exact harmed

theorem outputStep_keeps (h : OutputStep tcb log tcb') (ht : Timed tcb) : Keeps tcb tcb' := by
  cases h with
  | flags => exact keeps_of_same ht rfl rfl rfl rfl rfl
  | delack ticks => exact keeps_of_same ht rfl rfl (by simp [setTimer]) rfl rfl
  | bare => exact ⟨ht, id⟩
  | advance timeUs newSynFin hsyn hadvance =>
      have htimer : 0 < ((advanceSndNxt tcb (outputLength tcb) newSynFin).tTimer .rexmt).toNat ∧
          ((advanceSndNxt tcb (outputLength tcb) newSynFin).tTimer .rexmt).toNat ≤
            tcptvRexmtmax.toNat := by
        rw [advanceSndNxt_rexmt]
        split
        · exact ht.narrowed
        · rename_i hrunning
          have hpos : (tcb.tTimer .rexmt).toNat ≠ 0 :=
            fun hzero => hrunning (BitVec.eq_of_toNat_eq hzero)
          exact ⟨Nat.pos_of_ne_zero hpos, ht.ticks⟩
      obtain ⟨_, _, _, heq⟩ := advanceSndNxt_eq tcb (outputLength tcb) newSynFin
      rw [heq] at htimer ⊢
      exact ⟨⟨ht.shift, ht.lower, ht.upper, htimer.2⟩, fun _ _ => ne_zero_of_toNat htimer.1⟩

theorem receiveStep_keeps (h : ReceiveStep In tcb log tcb') (ht : Timed tcb) : Keeps tcb tcb' := by
  obtain ⟨_, _, _, _, _, heq⟩ := receiveTrace_eq (.single h)
  rw [heq]
  exact keeps_of_same ht rfl rfl rfl rfl rfl

theorem validAck_outstanding {ackNum : U32} (h : validAck tcb ackNum = true) :
    tcb.sndUna ≠ tcb.sndMax := by
  intro heq
  rw [validAck, ← heq, Bool.and_eq_true] at h
  have hgt := h.1
  have hle := h.2
  simp only [seqGt, seqLeq, decide_eq_true_eq] at hgt hle
  omega

theorem ackStep_keeps (h : AckStep In tcb log tcb') (ht : Timed tcb) : Keeps tcb tcb' := by
  cases h with
  | options env seg hseg =>
      obtain ⟨_, _, _, _, heq⟩ := processWindowOption_eq env seg tcb
      rw [heq]
      exact keeps_of_same ht rfl rfl rfl rfl rfl
  | ack seg hseg hack =>
      exact ⟨⟨ht.shift, ht.lower, ht.upper, ht.ticks⟩,
        fun harmed _ => harmed (validAck_outstanding hack)⟩
  | window seg hseg hack => exact keeps_of_same ht rfl rfl rfl rfl rfl
  | sample rttUs =>
      obtain ⟨tSrtt, tRttvar, _, heq⟩ := utcpXmitTimer_eq tcb rttUs
      obtain ⟨hlower, hupper⟩ := Estimator.rxtcurOf_bounds tSrtt tRttvar
      rw [heq]
      refine ⟨⟨ht.shift, ?_, hupper, ht.ticks⟩, id⟩
      exact Nat.lt_of_lt_of_le (by decide) hlower
  | rearm env =>
      unfold rearmRexmt
      split
      · rename_i hall
        exact ⟨⟨Nat.zero_le _, ht.lower, ht.upper, by simp [setTimer]⟩, fun _ hnot => absurd hall hnot⟩
      · obtain ⟨hpos, hle⟩ := ht.rearmTicks_bounds env
        refine ⟨⟨ht.shift, ht.lower, ht.upper, ?_⟩, fun _ _ => ?_⟩
        · simpa [setTimer] using hle
        · simpa [setTimer] using ne_zero_of_toNat hpos
  | congestion => exact keeps_of_same ht rfl rfl rfl rfl rfl
  | retransmit reading => exact ⟨ht, id⟩

theorem timerStep_keeps (h : TimerStep Increases tcb log tcb') (ht : Timed tcb) :
    Keeps tcb tcb' := by
  have hother : ∀ (timer : Timer) (ticks : U16), timer ≠ .rexmt →
      Keeps tcb (setTimer tcb timer ticks) := by
    intro timer ticks hne
    exact keeps_of_same ht rfl rfl (if_neg (Ne.symm hne)) rfl rfl
  cases h with
  | clock => exact keeps_of_same ht rfl rfl rfl rfl rfl
  | countDown timer hticks =>
      by_cases htimer : timer = .rexmt
      · subst htimer
        have hmax : tcptvRexmtmax.toNat = 6400 := rfl
        have hle := ht.ticks
        have hint : (tcb.tTimer .rexmt).toInt = (tcb.tTimer .rexmt).toNat := by
          rw [BitVec.toInt_eq_toNat_cond, if_pos (by omega)]
        have hleft : (tcb.tTimer .rexmt - 1).toNat = (tcb.tTimer .rexmt).toNat - 1 := by
          bv_omega
        refine ⟨⟨ht.shift, ht.lower, ht.upper, ?_⟩, fun _ _ => ?_⟩
        · simp only [setTimer, if_true]
          omega
        · simp only [setTimer, if_true]
          exact ne_zero_of_toNat (by omega)
      · exact hother timer _ htimer
  | rexmt env recover hticks hshift =>
      obtain ⟨hpos, hle⟩ := ht.backedOff_bounds env hshift.next
      rw [← ht.expired env recover] at hpos hle
      obtain ⟨tTimer, ssthresh, heq⟩ := expireRexmt_eq env tcb recover
      rw [heq] at hpos hle ⊢
      exact ⟨⟨hshift.next, ht.lower, ht.upper, hle⟩, fun _ _ => ne_zero_of_toNat hpos⟩
  | other timer hticks htimer => exact hother timer _ htimer

theorem openStep_timed (h : OpenStep In tcb log tcb') (ht : Timed tcb) : Timed tcb' := by
  cases h with
  | connect ip port hstate => exact ⟨ht.shift, ht.lower, ht.upper, ht.ticks⟩
  | syn env seg peer hseg hstate hflag =>
      obtain ⟨_, _, _, _, heq⟩ := processWindowOption_eq env seg tcb
      rw [acceptSyn, heq]
      exact ⟨ht.shift, ht.lower, ht.upper, ht.ticks⟩
  | synAck env seg hseg hstate hawaited =>
      simp only [acceptSynAck]
      obtain ⟨_, _, _, _, heq⟩ := processWindowOption_eq env seg
        { tcb with
          sndUna := seg.hdr.thAck
          irs := seg.hdr.thSeq
          rcvNxt := seg.hdr.thSeq + 1
          state := .established }
      rw [heq]
      exact ⟨Nat.zero_le _, ht.lower, ht.upper, by simp [setTimer]⟩
  | finalAck seg hseg hstate hcompletes =>
      exact ⟨Nat.zero_le _, ht.lower, ht.upper, by simp [acceptFinalAck, setTimer]⟩

theorem endpointStep_timed (h : EndpointStep In Increases e log e') (ht : Timed e.tcb) :
    Timed e'.tcb ∧
      (e.tcb.state = .established → e'.tcb.state = .established ∧ (Armed e.tcb → Armed e'.tcb)) := by
  cases h with
  | tcb h =>
      have hstays := fun hstate => Stalls.tcbStep_established hstate h
      have hkeeps : ∀ tcb', Keeps e.tcb tcb' →
          (e.tcb.state = .established → tcb'.state = .established) →
            Timed tcb' ∧ (e.tcb.state = .established →
              tcb'.state = .established ∧ (Armed e.tcb → Armed tcb')) :=
        fun tcb' hkeeps hstays => ⟨hkeeps.timed, fun hstate => ⟨hstays hstate, hkeeps.armed⟩⟩
      cases h with
      | output h => exact hkeeps _ (outputStep_keeps h ht) hstays
      | receive _ h => exact hkeeps _ (receiveStep_keeps h ht) hstays
      | ack _ h => exact hkeeps _ (ackStep_keeps h ht) hstays
      | timer h => exact hkeeps _ (timerStep_keeps h ht) hstays
      | opening h =>
          refine ⟨openStep_timed h ht, fun hstate => ?_⟩
          cases h <;> exact absurd (hstate.symm.trans (by assumption)) (by decide)
  | call bytes hstate hpending => exact ⟨ht, fun hstate => ⟨hstate, id⟩⟩
  | write n hstate hroom hn =>
      have hwritten : Keeps e.tcb (writeChunk e.tcb (e.pending.take n)) := by
        rw [writeChunk]
        exact keeps_of_same ht rfl rfl rfl rfl rfl
      have hstays : (writeChunk e.tcb (e.pending.take n)).state = e.tcb.state := by
        rw [writeChunk]
      exact ⟨hwritten.timed, fun hstate => ⟨hstays.trans hstate, hwritten.armed⟩⟩
  | read n hstate hn =>
      have htaken : Keeps e.tcb (takeBytes e.tcb n) ∧ (takeBytes e.tcb n).state = e.tcb.state := by
        obtain ⟨_, _, heq⟩ := takeBytes_eq e.tcb n
        rw [heq]
        exact ⟨keeps_of_same ht rfl rfl rfl rfl rfl, rfl⟩
      exact ⟨htaken.1.timed, fun hstate => ⟨htaken.2.trans hstate, htaken.1.armed⟩⟩

theorem run_timed (ht : Timed e.tcb) (hok : ExpiresInTable e s) (hrun : e.run s = some (e', log)) :
    Timed e'.tcb ∧ (e.tcb.state = .established → Armed e.tcb → Armed e'.tcb) := by
  have htrace : Trace (EndpointStep (fun _ => True) Increases) e log e' := by
    refine run_trace (fun _ _ _ _ => trivial) ?_ hrun
    rintro envs rfl
    exact hok
  refine ⟨htrace.invariant (I := fun e => Timed e.tcb)
    (fun _ _ _ hstep ht => (endpointStep_timed hstep ht).1) ht, fun hstate harmed => ?_⟩
  have hall := htrace.invariant
    (I := fun e => Timed e.tcb ∧ e.tcb.state = .established ∧ Armed e.tcb) ?_ ⟨ht, hstate, harmed⟩
  · exact hall.2.2
  · rintro e log e' hstep ⟨ht, hstate, harmed⟩
    obtain ⟨ht', hkeeps⟩ := endpointStep_timed hstep ht
    obtain ⟨hstate', harmed'⟩ := hkeeps hstate
    exact ⟨ht', hstate', harmed' harmed⟩

/-- The timer is off when nothing is outstanding. -/
def Quiet (tcb : Tcb) : Prop := tcb.sndUna = tcb.sndMax → tcb.tTimer .rexmt = 0

structure Calm (written : List U8) (limit : Nat) (tcb : Tcb) : Prop where
  sends : Sends written 0 limit tcb
  quiet : Quiet tcb

theorem quiet_of_same (h : Quiet tcb) (htimer : tcb'.tTimer .rexmt = tcb.tTimer .rexmt)
    (huna : tcb'.sndUna = tcb.sndUna) (hmax : tcb'.sndMax = tcb.sndMax) : Quiet tcb' := by
  rw [Quiet, huna, hmax, htimer]
  exact h

theorem outputStep_calm (hsmall : written.length < 2 ^ 31 - 1) (h : OutputStep tcb log tcb')
    (hc : Calm written limit tcb) : Calm written limit tcb' := by
  have hsends' := (outputStep_sends h hc.sends hsmall).1
  refine ⟨hsends', ?_⟩
  cases h with
  | flags => exact quiet_of_same hc.quiet rfl rfl rfl
  | delack ticks => exact quiet_of_same hc.quiet (by simp [setTimer]) rfl rfl
  | bare => exact hc.quiet
  | advance timeUs newSynFin hsyn hadvance =>
      obtain ⟨una, nxt, top, -, hs⟩ := hc.sends
      obtain ⟨una', nxt', top', -, hs'⟩ := hsends'
      obtain rfl : newSynFin = false := hsyn.symm.trans (SendLoop.noSynFin_established hs.state)
      have hpos : 0 < (outputLength tcb).toNat := by
        rcases hadvance with hpos | hnot
        · exact hpos
        · cases hnot
      have hbuffered := hs.outputBuffered (Nat.lt_of_le_of_lt hs.top_le hsmall)
      have hshort := @outputLength_le_buffered tcb
      have huna := hs.una_le
      have hnxt := hs.nxt_le
      have htop := hs.top_le
      have huna' := hs'.una_le
      have hnxt' := hs'.nxt_le
      have htop' := hs'.top_le
      obtain ⟨_, _, _, heq⟩ := advanceSndNxt_eq tcb (outputLength tcb) false
      have hsndUna := hs'.sndUna
      have hsndNxt := hs'.sndNxt
      rw [heq] at hsndUna hsndNxt
      dsimp only at hsndUna hsndNxt
      rw [hs.sndUna] at hsndUna
      rw [consumed_data, hs.sndNxt, seqOf_add] at hsndNxt
      have hunaEq := seqOf_inj (by omega) (by omega) hsndUna
      have hnxtEq := seqOf_inj (by omega) (by omega) hsndNxt
      intro hall
      have hnone := seqOf_inj (by omega) (by omega) (hs'.sndUna.symm.trans (hall.trans hs'.sndMax))
      omega

theorem receiveStep_calm (h : ReceiveStep In tcb log tcb') (hc : Calm written limit tcb) :
    Calm written limit tcb' := by
  refine ⟨(receiveStep_sends h hc.sends).1, ?_⟩
  obtain ⟨_, _, _, _, _, heq⟩ := receiveTrace_eq (.single h)
  rw [heq]
  exact quiet_of_same hc.quiet rfl rfl rfl

theorem rearmRexmt_quiet (env : Env) (tcb : Tcb) : Quiet (rearmRexmt env tcb).tcb := by
  unfold rearmRexmt
  split
  · exact fun _ => by simp [setTimer]
  · rename_i hnot
    exact fun hall => absurd hall hnot

theorem ackStep_other (h : AckStep (fun _ => False) tcb log tcb') : AckStep In tcb log tcb' := by
  cases h with
  | options env seg hseg => exact hseg.elim
  | ack seg hseg => exact hseg.elim
  | window seg hseg => exact hseg.elim
  | sample rttUs => exact .sample tcb rttUs
  | rearm env => exact .rearm tcb env
  | congestion => exact .congestion ..
  | retransmit reading => exact .retransmit tcb reading

theorem ackStep_calm (hlimit : limit < 2 ^ 31 - 1) (hsmall : written.length < 2 ^ 31 - 1)
    (h : AckStep (fun _ => False) tcb log tcb') (hc : Calm written limit tcb) :
    Calm written limit tcb' := by
  refine ⟨(ackStep_sends hlimit (ackStep_other h) hc.sends hsmall).1, ?_⟩
  cases h with
  | options env seg hseg => exact hseg.elim
  | ack seg hseg => exact hseg.elim
  | window seg hseg => exact hseg.elim
  | sample rttUs =>
      obtain ⟨_, _, _, heq⟩ := utcpXmitTimer_eq tcb rttUs
      rw [heq]
      exact quiet_of_same hc.quiet rfl rfl rfl
  | rearm env => exact rearmRexmt_quiet env tcb
  | congestion => exact quiet_of_same hc.quiet rfl rfl rfl
  | retransmit reading => exact hc.quiet

theorem timerStep_calm (h : TimerStep Ex tcb log tcb') (hc : Calm written limit tcb) :
    Calm written limit tcb' := by
  refine ⟨(timerStep_sends h hc.sends).1, ?_⟩
  have hquiet := hc.quiet
  cases h with
  | clock => exact quiet_of_same hquiet rfl rfl rfl
  | countDown timer hticks =>
      by_cases htimer : timer = .rexmt
      · subst htimer
        intro hall
        rw [hquiet hall] at hticks
        exact absurd hticks (by decide)
      · exact quiet_of_same hquiet (if_neg (Ne.symm htimer)) rfl rfl
  | rexmt env recover hticks hshift =>
      obtain ⟨_, _, heq⟩ := expireRexmt_eq env tcb recover
      rw [heq]
      intro hall
      rw [hquiet hall] at hticks
      exact absurd hticks (by decide)
  | other timer hticks htimer => exact quiet_of_same hquiet (if_neg (Ne.symm htimer)) rfl rfl

theorem controlTrace_calm (hlimit : limit < 2 ^ 31 - 1) (hsmall : written.length < 2 ^ 31 - 1)
    (h : Trace (ControlStep fun _ => False) tcb log tcb') (hc : Calm written limit tcb) :
    Calm written limit tcb' := by
  refine h.invariant (I := Calm written limit) (fun tcb log tcb' hstep hc => ?_) hc
  cases hstep with
  | output h => exact outputStep_calm hsmall h hc
  | ack h => exact ackStep_calm hlimit hsmall h hc

theorem endpointStep_calm {stream : List U8} (hstream : stream.length < 2 ^ 31 - 1)
    (hlimit : limit < 2 ^ 31 - 1) (h : EndpointStep (fun _ => False) Ex e log e')
    (hle : e'.written <+: stream) (hc : Calm e.written limit e.tcb) :
    Calm e'.written limit e'.tcb := by
  have hsmall : e.written.length < 2 ^ 31 - 1 :=
    Nat.lt_of_le_of_lt ((endpointStep_written h).trans hle).length_le hstream
  obtain ⟨una, nxt, top, -, hs⟩ := hc.sends
  cases h with
  | tcb h =>
      cases h with
      | output h => exact outputStep_calm hsmall h hc
      | receive _ h => exact receiveStep_calm h hc
      | ack _ h => exact ackStep_calm hlimit hsmall h hc
      | timer h => exact timerStep_calm h hc
      | opening h => cases h <;> exact absurd (hs.state.symm.trans (by assumption)) (by decide)
  | call => exact hc
  | write n hstate hroom hn =>
      have hstep : EndpointStep (Acks limit) Ex e [] _ := .write e n hstate hroom hn
      refine ⟨(endpointStep_sends hstream hlimit hstep hle hc.sends).1, ?_⟩
      have hwritten : Quiet (writeChunk e.tcb (e.pending.take n)) := by
        rw [writeChunk]
        exact quiet_of_same hc.quiet rfl rfl rfl
      exact hwritten
  | read n hstate hn =>
      have hstep : EndpointStep (Acks limit) Ex e [] _ := .read e n hstate hn
      refine ⟨(endpointStep_sends hstream hlimit hstep hle hc.sends).1, ?_⟩
      have htaken : Quiet (takeBytes e.tcb n) := by
        obtain ⟨_, _, heq⟩ := takeBytes_eq e.tcb n
        rw [heq]
        exact quiet_of_same hc.quiet rfl rfl rfl
      exact htaken

theorem handleAck_calm (hlimit : limit < 2 ^ 31 - 1) (hsmall : written.length < 2 ^ 31 - 1)
    {seg : TcpSegment} {out : Out} (hseg : Acks limit seg) (h : handleAck env tcb seg = some out)
    (hc : Calm written limit tcb) : Calm written limit out.tcb := by
  have hsends : ∀ {tcb tcb' log}, AckStep (Acks limit) tcb log tcb' →
      Sends written 0 limit tcb → Sends written 0 limit tcb' :=
    fun hstep hs => (ackStep_sends hlimit hstep hs hsmall).1
  cases handleAck_cases h with
  | acked cc hack hcc =>
      have hbefore := (beforeAckEvent_trace env hseg hack).invariant
        (I := Sends written 0 limit) (fun _ _ _ hstep hs => hsends hstep hs) hc.sends
      have hreact : Trace (ControlStep fun _ => False) _ cc.log cc.tcb :=
        congControl_trace (by rintro flight ⟨⟩) hcc
      exact controlTrace_calm hlimit hsmall hreact ⟨hbefore, rearmRexmt_quiet env _⟩
  | window hack hsame hlarger =>
      exact ⟨hsends (.window tcb seg hseg hsame) hc.sends, quiet_of_same hc.quiet rfl rfl rfl⟩
  | duplicate cc dupacks hack hsame hsmaller hbare hflight hdupacks hcc =>
      have hwindow := hsends (.window tcb seg hseg hsame) hc.sends
      have hcounted := hsends (.congestion _ tcb.cwnd tcb.ssthresh tcb.recover tcb.tRtt tcb.caState
        dupacks) hwindow
      have hreact : Trace (ControlStep fun _ => False) _ out.log out.tcb :=
        congControl_trace (by rintro flight ⟨⟩) hcc
      exact controlTrace_calm hlimit hsmall hreact
        ⟨hcounted, quiet_of_same hc.quiet rfl rfl rfl⟩
  | ignored => exact hc

theorem handleReceivedData_calm (hlimit : limit < 2 ^ 31 - 1)
    (hsmall : written.length < 2 ^ 31 - 1) {seg : TcpSegment} {out : Out} (hseg : Acks limit seg)
    (h : handleReceivedData env tcb seg = some out) (hc : Calm written limit tcb) :
    Calm written limit out.tcb := by
  obtain ⟨acked, hacked, hout⟩ := Option.bind_eq_some_iff.mp h
  cases hout
  have hoptions : Calm written limit (processWindowOption env seg tcb) := by
    refine ⟨(ackStep_sends hlimit (.options tcb env seg hseg) hc.sends hsmall).1, ?_⟩
    obtain ⟨_, _, _, _, heq⟩ := processWindowOption_eq env seg tcb
    rw [heq]
    exact quiet_of_same hc.quiet rfl rfl rfl
  have hmid := handleAck_calm hlimit hsmall hseg hacked hoptions
  have hdata := @handleData_trace (Acks limit) env acked.tcb seg hseg
  refine hdata.invariant (I := Calm written limit) (fun tcb log tcb' hstep hc => ?_) hmid
  cases hstep with
  | output h => exact outputStep_calm hsmall h hc
  | receive h => exact receiveStep_calm h hc

theorem run_calm {stream : List U8} (hstream : stream.length < 2 ^ 31 - 1)
    (hlimit : limit < 2 ^ 31 - 1) (hin : ∀ env seg peer, s = .input env seg peer → Acks limit seg)
    (hle : e'.written <+: stream) (hrun : e.run s = some (e', log))
    (hc : Calm e.written limit e.tcb) : Calm e'.written limit e'.tcb := by
  by_cases hinput : ∃ env seg peer, s = .input env seg peer
  · obtain ⟨env, seg, peer, rfl⟩ := hinput
    have hsmall : e.written.length < 2 ^ 31 - 1 :=
      Nat.lt_of_le_of_lt ((run_written hrun).trans hle).length_le hstream
    obtain ⟨out, hout, hrun⟩ := Option.map_eq_some_iff.mp hrun
    cases hrun
    obtain ⟨una, nxt, top, -, hs⟩ := hc.sends
    have hstate := hs.state
    cases utcpInput_cases hout with
    | syn hother => exact absurd (hother.symm.trans hstate) (by decide)
    | synAck cc hother => exact absurd (hother.symm.trans hstate) (by decide)
    | finalAck cc rest hother => exact absurd (hother.symm.trans hstate) (by decide)
    | received _ hreceiving hnot hrest =>
        exact handleReceivedData_calm hlimit hsmall (hin env seg peer rfl) hrest hc
    | ignored hnot => exact absurd (.inr hstate) hnot
  · have htrace : Trace (EndpointStep (fun _ => False) fun _ => True) e log e' :=
      run_trace (fun env seg peer heq => hinput ⟨env, seg, peer, heq⟩) (fun _ _ _ => trivial) hrun
    refine (@Trace.events_under _ _ _ (fun e => Calm e.written limit e.tcb)
      (fun e => e.written <+: stream) (fun _ => True) ?_ ?_ _ _ _ htrace hle hc).1
    · exact fun _ _ _ hstep hle => (endpointStep_written hstep).trans hle
    · exact fun _ _ _ hstep hle hc => ⟨endpointStep_calm hstream hlimit hstep hle hc, by simp⟩

theorem opening_calm {out : Out} (hlimit : limit < 2 ^ 31 - 1) (h : Opening tcb)
    (hin : ∀ env seg peer, s = .input env seg peer → Acks limit seg) (hout : RunCases tcb s out)
    (hstate' : out.tcb.state = .established) : Calm [] limit out.tcb := by
  have hstate := h.state
  cases hout with
  | connect env ip port hother => exact absurd (hother.symm.trans hstate) (by decide)
  | input env seg peer out hcases =>
      cases hcases with
      | syn hother => exact absurd (hother.symm.trans hstate) (by decide)
      | synAck cc hsent hawaited hcc =>
          obtain ⟨hone, hnxt⟩ := h.awaited hawaited ((hin env seg peer rfl).ne_zero hlimit)
          have hoff : ∀ t : Tcb,
              ({ setTimer t .rexmt 0 with tRxtshift := 0 } : Tcb).tTimer .rexmt = 0 :=
            fun _ => by simp [setTimer]
          have hopened : Calm [] limit (acceptSynAck env tcb seg) :=
            ⟨⟨0, 0, 0, ⟨Nat.le_refl 0, Nat.zero_le limit⟩, h.sending env hone hnxt⟩, fun _ => hoff _⟩
          have hreact : Trace (ControlStep fun _ => False) _ cc.log cc.tcb :=
            congControl_trace (by rintro flight ⟨⟩) hcc
          have hstarted := controlTrace_calm hlimit (by decide) hreact hopened
          exact (acknowOutput_trace env.output cc.tcb).invariant (I := Calm [] limit)
            (fun _ _ _ hstep hc => outputStep_calm (by decide) hstep hc) hstarted
      | finalAck cc rest hother => exact absurd (hother.symm.trans hstate) (by decide)
      | received _ hreceiving =>
          rcases hreceiving with hother | hother <;>
            exact absurd (hother.symm.trans hstate) (by decide)
      | ignored => exact absurd (hstate.symm.trans hstate') (by decide)
  | slowtimo envs out hslow =>
      exact absurd ((h.slowtimo hslow).1.state.symm.trans hstate') (by decide)
  | send envs bytes hother => exact absurd (hother.symm.trans hstate) (by decide)
  | wake envs bytes hother => exact absurd (hother.symm.trans hstate) (by decide)
  | read env len out hother => exact absurd (hother.symm.trans hstate) (by decide)

/-- The retransmission timer of the client does not expire past the table. -/
def ClientInTable (n : Net) : Action → Prop
  | .run .client s => ExpiresInTable n.client s
  | _ => True

theorem client_runs (h : n.step a = some n') (hok : ClientInTable n a) :
    n'.client = n.client ∨
      ∃ s log, ExpiresInTable n.client s ∧ n.client.run s = some (n'.client, log) ∧
        ∀ env seg peer, s = .input env seg peer → seg ∈ n.inbox .client := by
  cases Net.step_cases h with
  | run x s result hlocal hrun =>
      cases x with
      | client =>
          refine .inr ⟨s, result.2, hok, ?_, ?_⟩
          · exact hrun.trans (congrArg (fun e => some (e, result.2)) (finish_endpoint_self ..).symm)
          · rintro env seg peer rfl
            cases hlocal
      | server => exact .inl (finish_endpoint_other n .server result)
  | deliver x env index seg result hseg hrun =>
      cases x with
      | client =>
          refine .inr ⟨.input env seg (n.address .server), result.2, trivial, ?_, ?_⟩
          · exact hrun.trans (congrArg (fun e => some (e, result.2)) (finish_endpoint_self ..).symm)
          · rintro _ _ _ ⟨⟩
            exact List.mem_of_getElem? hseg
      | server => exact .inl (finish_endpoint_other _ .server result)
  | duplicate => exact .inl rfl
  | lose => exact .inl rfl

/-- The client's timer in a state of the network. -/
structure Running (n : Net) : Prop where
  timed : Timed n.client.tcb
  armed : n.client.tcb.state = .established → Armed n.client.tcb
  quiet : n.client.tcb.state = .established → Quiet n.client.tcb

theorem running_initial (h : n.Initial) : Running n := by
  obtain ⟨ip, port, ip', port', hclient, -, -⟩ := h
  have hlower : 0 < tcptvSrttdflt.toNat := by decide
  have hupper : tcptvSrttdflt.toNat ≤ tcptvRexmtmax.toNat := by decide
  refine ⟨?_, ?_, ?_⟩
  · rw [Net.client, hclient]
    exact ⟨Nat.zero_le _, hlower, hupper, Nat.zero_le _⟩
  · rw [Net.client, hclient]
    exact fun _ hnot => absurd rfl hnot
  · rw [Net.client, hclient]
    exact fun _ _ => rfl

theorem armed_unwritten {low limit : Nat} (h : Sends [] low limit tcb) : Armed tcb := by
  obtain ⟨una, nxt, top, -, hs⟩ := h
  have htop : una = top := by
    have hle := hs.top_le
    have hnxt := hs.nxt_le
    have huna := hs.una_le
    rw [List.length_nil] at hle
    omega
  exact fun hnot => absurd (hs.sndUna.trans (htop ▸ hs.sndMax.symm)) hnot

theorem step_running {stream : List U8} (hstream : stream.length < 2 ^ 31 - 1)
    (hjoint : Joint stream n) (hstep : n.step a = some n') (hle : n'.client.written <+: stream)
    (hok : ClientInTable n a) (h : Running n) : Running n' := by
  rcases client_runs hstep hok with heq | ⟨s, log, hexpires, hrun, hinput⟩
  · refine ⟨?_, ?_, ?_⟩ <;> rw [heq]
    · exact h.timed
    · exact h.armed
    · exact h.quiet
  · obtain ⟨htimed, harmed⟩ := run_timed h.timed hexpires hrun
    have hlimit : edgeOf n.server < 2 ^ 31 - 1 :=
      Nat.lt_of_le_of_lt (Acknowledging.edgeOf_le hjoint.receives) hstream
    have hin : ∀ env seg peer, s = .input env seg peer → Acks (edgeOf n.server) seg :=
      fun env seg peer heq => hjoint.toClient seg (hinput env seg peer heq)
    cases hjoint.client with
    | idle hidle =>
        have hnot : n'.client.tcb.state ≠ .established := by
          obtain ⟨out, hout, hran⟩ := run_cases hrun
          rw [hran.tcb_eq]
          rcases (@Idle.run _ [] _ _ hidle hout).1 with hidle' | hopening'
          · rw [hidle'.state]
            decide
          · exact hopening'.notEstablished
        exact ⟨htimed, fun hstate => absurd hstate hnot, fun hstate => absurd hstate hnot⟩
    | opening hopening =>
        have hcalm : n'.client.tcb.state = .established →
            Calm [] (edgeOf n.server) n'.client.tcb := by
          obtain ⟨out, hout, hran⟩ := run_cases hrun
          rw [hran.tcb_eq]
          exact opening_calm hlimit hopening hin hout
        exact ⟨htimed, fun hstate => armed_unwritten (hcalm hstate).sends,
          fun hstate => (hcalm hstate).quiet⟩
    | sends hsends =>
        have hstate : n.client.tcb.state = .established := by
          obtain ⟨_, _, _, -, hs⟩ := hsends
          exact hs.state
        have hcalm := run_calm hstream hlimit hin hle hrun ⟨hsends, h.quiet hstate⟩
        exact ⟨htimed, fun _ => harmed hstate (h.armed hstate), fun _ => hcalm.quiet⟩

theorem reached_running (h : ReachedBy network ClientInTable n)
    (hsmall : n.client.written.length < 2 ^ 31 - 1) : Running n := by
  refine @ReachedBy.invariant_under _ _ _ _ Running (fun n => n.client.written.length < 2 ^ 31 - 1)
    (fun n hinit => running_initial hinit) ?_ ?_ _ h hsmall
  · exact fun n a n' hstep hsmall => Nat.lt_of_le_of_lt (step_written hstep .client).length_le hsmall
  · intro n a n' hreach hrunning hok hsmall' hstep
    have hjoint := joint hsmall' hreach (step_written hstep .client)
    exact step_running hsmall' hjoint hstep List.prefix_rfl hok hrunning

theorem Running.rexmt_iff (h : Running n) (hstate : n.client.tcb.state = .established) :
    (0 < (n.client.tcb.tTimer .rexmt).toInt ↔ n.client.tcb.sndUna ≠ n.client.tcb.sndMax) ∧
      (n.client.tcb.tTimer .rexmt).toInt ≤ tcptvRexmtmax.toInt := by
  obtain ⟨htimed, harmed, hquiet⟩ := h
  have hmax : tcptvRexmtmax.toNat = 6400 := rfl
  have hmaxInt : tcptvRexmtmax.toInt = 6400 := rfl
  have hle := htimed.ticks
  have hint : (n.client.tcb.tTimer .rexmt).toInt = (n.client.tcb.tTimer .rexmt).toNat := by
    rw [BitVec.toInt_eq_toNat_cond, if_pos (by omega)]
  refine ⟨⟨fun hpos hall => ?_, fun hout => ?_⟩, by omega⟩
  · rw [hquiet hstate hall] at hpos
    exact absurd hpos (by decide)
  · have hne : (n.client.tcb.tTimer .rexmt).toNat ≠ 0 :=
      fun hzero => harmed hstate hout (BitVec.eq_of_toNat_eq hzero)
    omega

/-- The timer counts down to a retransmission, from at most 64 seconds, exactly while
something is outstanding. -/
theorem armed_iff_outstanding (h : ReachedBy network ClientInTable n)
    (hsmall : n.client.written.length < 2 ^ 31 - 1) (hstate : n.client.tcb.state = .established) :
    (0 < (n.client.tcb.tTimer .rexmt).toInt ↔ n.client.tcb.sndUna ≠ n.client.tcb.sndMax) ∧
      (n.client.tcb.tTimer .rexmt).toInt ≤ tcptvRexmtmax.toInt :=
  (reached_running h hsmall).rexmt_iff hstate

/-- The client has sent three bytes, and no acknowledgment has arrived. -/
theorem sent_reached :
    ∃ n : Net, ReachedBy network ClientInTable n ∧ n.client.written.length = 3 ∧
      n.client.tcb.state = .established ∧ n.client.tcb.sndUna ≠ n.client.tcb.sndMax ∧
        n.client.tcb.tTimer .rexmt = 100 := by
  let actions : List Action :=
    [.run .client (.connect (.still 5) 2 20), .deliver .server (.still 6) 0,
      .deliver .client (.still 7) 0, .run .client (.send (fun _ => .still 9) [65, 66, 67])]
  have hrun : (runAll Net.step Net.start actions).map (fun n =>
      decide (n.client.written.length = 3 ∧ n.client.tcb.state = .established ∧
        n.client.tcb.sndUna ≠ n.client.tcb.sndMax ∧ n.client.tcb.tTimer .rexmt = 100)) =
          some true := by
    decide +kernel
  obtain ⟨n, hn, hcheck⟩ := Option.map_eq_some_iff.mp hrun
  have hallowed : ∀ a ∈ actions, ∀ n, ClientInTable n a := by
    intro a ha n
    simp only [actions, List.mem_cons, List.not_mem_nil, or_false] at ha
    rcases ha with rfl | rfl | rfl | rfl <;> trivial
  exact ⟨n, .runAllowed (fun _ _ _ hstep => hstep) actions hallowed (.init Net.start_initial) hn,
    of_decide_eq_true hcheck⟩

theorem armed_iff_outstanding_sent :
    ∃ n : Net, n.client.tcb.sndUna ≠ n.client.tcb.sndMax ∧
      (0 < (n.client.tcb.tTimer .rexmt).toInt ↔ n.client.tcb.sndUna ≠ n.client.tcb.sndMax) ∧
        (n.client.tcb.tTimer .rexmt).toInt ≤ tcptvRexmtmax.toInt := by
  obtain ⟨n, hreach, hlen, hstate, hout, -⟩ := sent_reached
  exact ⟨n, hout, armed_iff_outstanding hreach (by omega) hstate⟩

/-- A stretch of code in which the timer runs on: it neither stops nor expires. -/
def RunsOn (tcb : Tcb) (log : List Event) (tcb' : Tcb) : Prop :=
  tcb.tTimer .rexmt ≠ 0 →
    tcb'.tTimer .rexmt = tcb.tTimer .rexmt ∧ .expired .rexmt ∉ log

theorem runsOn_composes : Composes RunsOn := by
  refine ⟨fun tcb _ => ⟨rfl, by simp⟩, ?_⟩
  intro a b c log log' hfirst hrest hrunning
  obtain ⟨hsame, hlog⟩ := hfirst hrunning
  obtain ⟨hsame', hlog'⟩ := hrest (hsame ▸ hrunning)
  refine ⟨hsame'.trans hsame, fun hmem => ?_⟩
  rcases List.mem_append.mp hmem with hmem | hmem
  · exact hlog hmem
  · exact hlog' hmem

theorem utcpOutput_runsOn (readings : Nat → Reading) (tcb : Tcb) :
    RunsOn tcb (utcpOutput readings tcb).log (utcpOutput readings tcb).tcb := by
  refine runsOn_composes.trace (fun tcb log tcb' h hrunning => ?_) (utcpOutput_trace readings tcb)
  cases h with
  | flags => exact ⟨rfl, by simp⟩
  | delack ticks => exact ⟨by simp [setTimer], by simp⟩
  | bare => exact ⟨rfl, by simp⟩
  | advance => exact ⟨by rw [advanceSndNxt_rexmt, if_neg hrunning], by simp⟩

theorem tickTimer_runsOn {timer : Timer} {out : Out} (hother : timer ≠ .rexmt)
    (h : TickCases env tcb timer out) : RunsOn tcb out.log out.tcb := by
  have hset : ∀ ticks : U16, (setTimer tcb timer ticks).tTimer .rexmt = tcb.tTimer .rexmt :=
    fun _ => if_neg (Ne.symm hother)
  cases h with
  | idle => exact fun _ => ⟨rfl, by simp⟩
  | countDown => exact fun _ => ⟨hset _, by simp⟩
  | rexmt => exact absurd rfl hother
  | delack hticks =>
      intro hrunning
      let acknow : Tcb := { setTimer tcb .delack 0 with tfDelack := false, tfAcknow := true }
      have hbefore : acknow.tTimer .rexmt = tcb.tTimer .rexmt := hset 0
      have hrunning' : acknow.tTimer .rexmt ≠ 0 := fun hzero => hrunning (hbefore.symm.trans hzero)
      obtain ⟨hsame, hlog⟩ := utcpOutput_runsOn env.output acknow hrunning'
      refine ⟨hsame.trans hbefore, fun hmem => ?_⟩
      rcases List.mem_cons.mp hmem with heq | hmem
      · cases heq
      · exact hlog hmem
  | other => exact fun _ => ⟨hset 0, by simpa using Ne.symm hother⟩

theorem tickTimer_total (env : Env) (tcb : Tcb) (timer : Timer) :
    ∃ out, tickTimer env tcb timer = some out := by
  unfold tickTimer
  split
  · dsimp only
    split
    · cases timer with
      | rexmt =>
          obtain ⟨recover, htimeout⟩ := congControl_timeout env
            (goBack env (setTimer tcb .rexmt (tcb.tTimer .rexmt - 1)))
            (CongestionControl.flightSize (setTimer tcb .rexmt (tcb.tTimer .rexmt - 1)))
          simp only [utcpTimers, htimeout]
          exact ⟨_, rfl⟩
      | _ => exact ⟨_, rfl⟩
    · exact ⟨_, rfl⟩
  · exact ⟨_, rfl⟩

theorem tickTimers_total (envs : Timer → Env) (timers : List Timer) :
    ∀ tcb, ∃ out, tickTimers envs timers tcb = some out := by
  induction timers with
  | nil => exact fun tcb => ⟨_, rfl⟩
  | cons timer timers ih =>
      intro tcb
      obtain ⟨first, hfirst⟩ := tickTimer_total (envs timer) tcb timer
      obtain ⟨rest, hrest⟩ := ih first.tcb
      refine ⟨⟨rest.tcb, first.log ++ rest.log⟩, ?_⟩
      rw [tickTimers, hfirst, Option.bind_eq_bind, Option.bind_some, hrest]
      rfl

theorem tickTimers_runsOn {envs : Timer → Env} {out : Out}
    (h : tickTimers envs [.persist, .keep, .twoMsl, .delack] tcb = some out) :
    RunsOn tcb out.log out.tcb := by
  refine tickTimers_composes runsOn_composes _ (fun timer htimer tcb out htick => ?_) h
  refine tickTimer_runsOn ?_ htick
  rintro rfl
  simp at htimer

theorem slowtimo_split {envs : Timer → Env} {out : Out} (hstate : tcb.state ≠ .closed)
    (h : utcpSlowtimo envs tcb = some out) :
    ∃ first rest : Out, TickCases (envs .rexmt) (ticked tcb) .rexmt first ∧
      RunsOn first.tcb rest.log rest.tcb ∧ out = ⟨rest.tcb, first.log ++ rest.log⟩ := by
  rw [utcpSlowtimo, if_neg hstate] at h
  obtain ⟨first, hfirst, h⟩ := Option.bind_eq_some_iff.mp h
  obtain ⟨rest, hrest, h⟩ := Option.bind_eq_some_iff.mp h
  exact ⟨first, rest, tickTimer_cases hfirst, tickTimers_runsOn hrest, (Option.some.inj h).symm⟩

theorem slowtimo_counts {envs : Timer → Env} {out : Out} (hstate : tcb.state ≠ .closed)
    (hticks : 1 < (tcb.tTimer .rexmt).toInt) (h : utcpSlowtimo envs tcb = some out) :
    out.tcb.tTimer .rexmt = tcb.tTimer .rexmt - 1 ∧ .expired .rexmt ∉ out.log := by
  obtain ⟨first, rest, htick, hrest, rfl⟩ := slowtimo_split hstate h
  have hsame : (ticked tcb).tTimer .rexmt = tcb.tTimer .rexmt := rfl
  cases htick with
  | idle _ hidle =>
      rw [hsame] at hidle
      omega
  | countDown _ _ =>
      have hleft : (setTimer (ticked tcb) .rexmt ((ticked tcb).tTimer .rexmt - 1)).tTimer .rexmt =
          tcb.tTimer .rexmt - 1 := by
        simp only [setTimer, if_true]
        rfl
      have hne : tcb.tTimer .rexmt - 1 ≠ 0 := by
        intro hzero
        rw [BitVec.sub_eq_iff_eq_add] at hzero
        rw [hzero] at hticks
        exact absurd hticks (by decide)
      obtain ⟨hrunning, hlog⟩ := hrest (hleft ▸ hne)
      exact ⟨hrunning.trans hleft, hlog⟩
  | rexmt recover hone =>
      rw [hsame] at hone
      rw [hone] at hticks
      exact absurd hticks (by decide)
  | other _ _ hrexmt => exact absurd rfl hrexmt

theorem slowtimo_expires {envs : Timer → Env} {out : Out} (hstate : tcb.state ≠ .closed)
    (hticks : tcb.tTimer .rexmt = 1) (h : utcpSlowtimo envs tcb = some out) :
    .expired .rexmt ∈ out.log := by
  obtain ⟨first, rest, htick, -, rfl⟩ := slowtimo_split hstate h
  have hsame : (ticked tcb).tTimer .rexmt = tcb.tTimer .rexmt := rfl
  apply List.mem_append_left
  cases htick with
  | idle _ hidle =>
      rw [hsame, hticks] at hidle
      exact absurd (by decide) hidle
  | countDown _ hmore =>
      rw [hsame, hticks] at hmore
      exact absurd hmore (by decide)
  | rexmt => simp
  | other _ _ hrexmt => exact absurd rfl hrexmt

theorem step_tick (n : Net) (envs : Timer → Env) :
    ∃ n' out, n.step (.run .client (.slowtimo envs)) = some n' ∧
      utcpSlowtimo envs n.client.tcb = some out ∧ n'.client.tcb = out.tcb ∧
        n'.client.history = n.client.history ++ out.log := by
  have htotal : ∃ out, utcpSlowtimo envs n.client.tcb = some out := by
    unfold utcpSlowtimo
    split
    · exact ⟨_, rfl⟩
    · exact tickTimers_total ..
  obtain ⟨out, hout⟩ := htotal
  have hrun : n.client.run (.slowtimo envs) = some (n.client.finish out) := by
    rw [Endpoint.run, hout]
    rfl
  have hself : (n.finish .client (n.client.finish out)).client = (n.client.finish out).1 :=
    finish_endpoint_self ..
  refine ⟨n.finish .client (n.client.finish out), out, ?_, hout, ?_, ?_⟩
  · exact congrArg (Option.map (n.finish .client)) hrun
  · rw [hself]
    rfl
  · rw [hself]
    rfl

/-- The clock of the client ticks, and nothing else happens. -/
def ticking (ticks : List (Timer → Env)) : List Action :=
  ticks.map fun envs => .run .client (.slowtimo envs)

theorem ticks_count (ticks : List (Timer → Env)) :
    ∀ n : Net, n.client.tcb.state ≠ .closed → (n.client.tcb.tTimer .rexmt).toNat ≤ 6400 →
      ticks.length < (n.client.tcb.tTimer .rexmt).toNat →
        ∃ n' log, runAll Net.step n (ticking ticks) = some n' ∧ n'.client.tcb.state ≠ .closed ∧
          (n'.client.tcb.tTimer .rexmt).toNat + ticks.length = (n.client.tcb.tTimer .rexmt).toNat ∧
            n'.client.history = n.client.history ++ log ∧ .expired .rexmt ∉ log := by
  induction ticks with
  | nil =>
      intro n hstate _ _
      exact ⟨n, [], rfl, hstate, rfl, (List.append_nil _).symm, by simp⟩
  | cons envs ticks ih =>
      intro n hstate hsmall hlen
      rw [List.length_cons] at hlen
      obtain ⟨mid, out, hstep, hout, htcb, hhistory⟩ := step_tick n envs
      have hticks : 1 < (n.client.tcb.tTimer .rexmt).toInt := by
        rw [BitVec.toInt_eq_toNat_of_lt (by omega)]
        omega
      obtain ⟨hleft, hsilent⟩ := slowtimo_counts hstate hticks hout
      have hcount : (mid.client.tcb.tTimer .rexmt).toNat + 1 = (n.client.tcb.tTimer .rexmt).toNat := by
        rw [htcb, hleft]
        bv_omega
      have htrace : Trace (ClockStep fun _ => True) _ _ _ := utcpSlowtimo_trace (fun _ => trivial) hout
      have hstate' : mid.client.tcb.state ≠ .closed := by
        rw [htcb, clockTrace_state htrace]
        exact hstate
      obtain ⟨n', log, hrun, hstate'', hcount', hhistory', hsilent'⟩ :=
        ih mid hstate' (by omega) (by omega)
      refine ⟨n', out.log ++ log, ?_, hstate'', ?_, ?_, fun hmem => ?_⟩
      · exact (congrArg (Option.bind · fun n => runAll Net.step n (ticking ticks)) hstep).trans hrun
      · rw [List.length_cons]
        omega
      · rw [hhistory', hhistory, List.append_assoc]
      · rcases List.mem_append.mp hmem with hmem | hmem
        · exact hsilent hmem
        · exact hsilent' hmem

/-- A client that hears nothing lets its timer expire after as many ticks as
`t_timer` says, and not before. -/
theorem expires_in_time (h : ReachedBy network ClientInTable n)
    (hsmall : n.client.written.length < 2 ^ 31 - 1) (hstate : n.client.tcb.state = .established)
    (hout : n.client.tcb.sndUna ≠ n.client.tcb.sndMax) (ticks : List (Timer → Env))
    (hlen : ticks.length ≤ (n.client.tcb.tTimer .rexmt).toNat) :
    ∃ n' log, runAll Net.step n (ticking ticks) = some n' ∧
      n'.client.history = n.client.history ++ log ∧
        (.expired .rexmt ∈ log ↔ ticks.length = (n.client.tcb.tTimer .rexmt).toNat) := by
  obtain ⟨htimed, harmed, -⟩ := reached_running h hsmall
  have hopen : n.client.tcb.state ≠ .closed := by
    rw [hstate]
    decide
  have hne : (n.client.tcb.tTimer .rexmt).toNat ≠ 0 :=
    fun hzero => harmed hstate hout (BitVec.eq_of_toNat_eq hzero)
  rcases List.eq_nil_or_concat ticks with rfl | ⟨front, last, rfl⟩
  · refine ⟨n, [], rfl, (List.append_nil _).symm, ?_⟩
    rw [List.length_nil]
    simp [hne.symm]
  · rw [List.concat_eq_append, List.length_append, List.length_singleton] at hlen ⊢
    obtain ⟨mid, log, hrun, hopen', hcount, hhistory, hsilent⟩ :=
      ticks_count front n hopen htimed.ticks (by omega)
    obtain ⟨n', out, hstep, hslow, -, hhistory'⟩ := step_tick mid last
    refine ⟨n', log ++ out.log, ?_, ?_, ?_⟩
    · rw [ticking, List.map_append, runAll_append]
      exact (congrArg (Option.bind · fun n => runAll Net.step n (ticking [last])) hrun).trans
        (congrArg (Option.bind · some) hstep)
    · rw [hhistory', hhistory, List.append_assoc]
    · by_cases hone : (mid.client.tcb.tTimer .rexmt).toNat = 1
      · have hexpires := slowtimo_expires hopen' (BitVec.eq_of_toNat_eq hone) hslow
        exact ⟨fun _ => by omega, fun _ => List.mem_append_right _ hexpires⟩
      · have hle := htimed.ticks
        have hmax : tcptvRexmtmax.toNat = 6400 := rfl
        have hticks : 1 < (mid.client.tcb.tTimer .rexmt).toInt := by
          rw [BitVec.toInt_eq_toNat_of_lt (by omega)]
          omega
        obtain ⟨-, hsilent'⟩ := slowtimo_counts hopen' hticks hslow
        refine ⟨fun hmem => ?_, fun hall => absurd hall (by omega)⟩
        rcases List.mem_append.mp hmem with hmem | hmem
        · exact absurd hmem hsilent
        · exact absurd hmem hsilent'

/-- A second without an answer. -/
theorem expires_in_time_sent :
    ∃ n : Net, n.client.tcb.sndUna ≠ n.client.tcb.sndMax ∧
      (n.client.tcb.tTimer .rexmt).toNat = 100 ∧ ∃ n' log,
        runAll Net.step n (ticking (List.replicate 100 fun _ => .still 9)) = some n' ∧
          n'.client.history = n.client.history ++ log ∧ .expired .rexmt ∈ log := by
  obtain ⟨n, hreach, hlen, hstate, hout, htimer⟩ := sent_reached
  have hticks : (n.client.tcb.tTimer .rexmt).toNat = 100 := congrArg BitVec.toNat htimer
  obtain ⟨n', log, hrun, hhistory, hexpires⟩ := expires_in_time hreach (by omega) hstate hout
    (List.replicate 100 fun _ => .still 9) (by rw [List.length_replicate, hticks])
  exact ⟨n, hout, hticks, n', log, hrun, hhistory,
    hexpires.mpr (by rw [List.length_replicate, hticks])⟩

/-- What leaves the counter of the expiries alone. -/
def SameShift (tcb : Tcb) (_ : List Event) (tcb' : Tcb) : Prop := tcb'.tRxtshift = tcb.tRxtshift

theorem sameShift_composes : Composes SameShift := by
  refine ⟨fun tcb => rfl, ?_⟩
  intro a b c log log' hfirst hrest
  exact hrest.trans hfirst

theorem utcpOutput_sameShift (readings : Nat → Reading) (tcb : Tcb) :
    (utcpOutput readings tcb).tcb.tRxtshift = tcb.tRxtshift := by
  obtain ⟨_, _, _, _, _, _, _, heq⟩ := utcpOutput_eq readings tcb
  rw [heq]

theorem tickTimer_sameShift {timer : Timer} {out : Out} (hother : timer ≠ .rexmt)
    (h : TickCases env tcb timer out) : SameShift tcb out.log out.tcb := by
  cases h with
  | idle => rfl
  | countDown => rfl
  | rexmt => exact absurd rfl hother
  | delack => exact utcpOutput_sameShift ..
  | other => rfl

/-- An expiry counts, whatever the other timers do in the same tick. -/
theorem slowtimo_shift {envs : Timer → Env} {out : Out} (hstate : tcb.state ≠ .closed)
    (hticks : tcb.tTimer .rexmt = 1) (h : utcpSlowtimo envs tcb = some out) :
    out.tcb.tRxtshift = tcb.tRxtshift + 1 := by
  rw [utcpSlowtimo, if_neg hstate] at h
  obtain ⟨first, hfirst, h⟩ := Option.bind_eq_some_iff.mp h
  obtain ⟨rest, hrest, h⟩ := Option.bind_eq_some_iff.mp h
  cases h
  have hothers : rest.tcb.tRxtshift = first.tcb.tRxtshift := by
    refine tickTimers_composes sameShift_composes _ (fun timer htimer tcb out htick => ?_) hrest
    refine tickTimer_sameShift ?_ htick
    rintro rfl
    simp at htimer
  obtain ⟨recover, htick⟩ := @Timeouts.tickTimer_rexmt (ticked tcb) (envs .rexmt) hticks
  rw [show tickTimer (envs .rexmt) (ticked tcb) .rexmt = some first from hfirst] at htick
  obtain ⟨tTimer, ssthresh, hexpired⟩ := expireRexmt_eq (envs .rexmt) (ticked tcb) recover
  calc rest.tcb.tRxtshift
      = (expireRexmt (envs .rexmt) (ticked tcb) recover).tRxtshift := by
        rw [hothers, Option.some.inj htick]
        exact utcpOutput_sameShift ..
    _ = tcb.tRxtshift + 1 := by
        rw [hexpired]
        rfl

/-- The counter of the client is an index of the table. -/
def ShiftInTable (n : Net) (_ : Action) : Prop := n.client.tcb.tRxtshift.toNat ≤ tcpMaxrxtshift

instance (n : Net) (a : Action) : Decidable (ShiftInTable n a) :=
  inferInstanceAs (Decidable (_ ≤ _))

theorem expiresInTable_of_shift (hb : Bounded e.tcb) (hrun : e.run s = some (e', log))
    (hshift : e'.tcb.tRxtshift.toNat ≤ tcpMaxrxtshift) : ExpiresInTable e s := by
  cases s with
  | slowtimo envs =>
      intro hticks
      have hopen : e.tcb.state ≠ .closed := by
        intro hclosed
        rw [hb.closed hclosed] at hticks
        exact absurd hticks (by decide)
      obtain ⟨out, hout, hran⟩ := run_cases hrun
      have hcounts : out.tcb.tRxtshift = e.tcb.tRxtshift + 1 := by
        cases hout with
        | slowtimo _ _ hslow => exact slowtimo_shift hopen hticks hslow
      rw [hran.tcb_eq, hcounts] at hshift
      have hmax : tcpMaxrxtshift = 12 := rfl
      have hle := hb.shift
      change e.tcb.tRxtshift.toNat < tcpMaxrxtshift
      bv_omega
  | _ => trivial

theorem clientInTable_of_shift (hb : Bounded n.client.tcb) (hstep : n.step a = some n')
    (hshift : n'.client.tcb.tRxtshift.toNat ≤ tcpMaxrxtshift) : ClientInTable n a := by
  cases Net.step_cases hstep with
  | run x s result hlocal hrun =>
      cases x with
      | client =>
          have hself : (n.finish .client result).client = result.1 := finish_endpoint_self ..
          rw [hself] at hshift
          exact expiresInTable_of_shift hb hrun hshift
      | server => trivial
  | deliver => trivial
  | duplicate => trivial
  | lose => trivial

theorem step_bounded (hstep : n.step a = some n') (hok : ClientInTable n a)
    (hb : Bounded n.client.tcb) : Bounded n'.client.tcb := by
  rcases client_runs hstep hok with heq | ⟨s, log, hexpires, hrun, -⟩
  · rw [heq]
    exact hb
  · exact (run_bounded hb hexpires hrun).1

theorem reached_inTable (h : ReachedBy network ShiftInTable n)
    (hshift : n.client.tcb.tRxtshift.toNat ≤ tcpMaxrxtshift) :
    ReachedBy network ClientInTable n ∧ Bounded n.client.tcb := by
  induction h with
  | init hinit =>
      refine ⟨.init hinit, ?_⟩
      obtain ⟨ip, port, ip', port', hclient, -, -⟩ := hinit
      rw [Net.client, hclient]
      exact bounded_start ⟨ip, port, .inl rfl⟩
  | step hreach hok hstep ih =>
      obtain ⟨hreach', hb⟩ := ih hok
      have hallowed := clientInTable_of_shift hb hstep hshift
      exact ⟨.step hreach' hallowed hstep, step_bounded hstep hallowed hb⟩

/-- In every run that keeps `t_rxtshift` in the table, the timer runs exactly while
something is outstanding. -/
theorem rexmt_runs_iff_outstanding (h : ReachedBy network ShiftInTable n)
    (hshift : n.client.tcb.tRxtshift.toNat ≤ tcpMaxrxtshift)
    (hsmall : n.client.written.length < 2 ^ 31 - 1) (hstate : n.client.tcb.state = .established) :
    (0 < (n.client.tcb.tTimer .rexmt).toInt ↔ n.client.tcb.sndUna ≠ n.client.tcb.sndMax) ∧
      (n.client.tcb.tTimer .rexmt).toInt ≤ tcptvRexmtmax.toInt :=
  (reached_running (reached_inTable h hshift).1 hsmall).rexmt_iff hstate

/-- Three bytes wait for the end of the doubled timeout. -/
theorem rexmt_runs_iff_outstanding_resent :
    ∃ n : Net, n.client.tcb.tRxtshift = 1 ∧ n.client.tcb.sndUna ≠ n.client.tcb.sndMax ∧
      (0 < (n.client.tcb.tTimer .rexmt).toInt ↔ n.client.tcb.sndUna ≠ n.client.tcb.sndMax) ∧
        (n.client.tcb.tTimer .rexmt).toInt ≤ tcptvRexmtmax.toInt := by
  let actions : List Action :=
    [.run .client (.connect (.still 5) 2 20), .deliver .server (.still 6) 0,
      .deliver .client (.still 7) 0, .run .client (.send (fun _ => .still 9) [65, 66, 67])] ++
        ticking (List.replicate 100 fun _ => .still 9)
  have hrun : (runAll (guarded ShiftInTable Net.step) Net.start actions).map (fun n =>
      decide (n.client.written.length = 3 ∧ n.client.tcb.state = .established ∧
        n.client.tcb.sndUna ≠ n.client.tcb.sndMax ∧ n.client.tcb.tRxtshift = 1)) = some true := by
    decide +kernel
  obtain ⟨n, hn, hcheck⟩ := Option.map_eq_some_iff.mp hrun
  obtain ⟨hlen, hstate, hout, hone⟩ := of_decide_eq_true hcheck
  have hshift : n.client.tcb.tRxtshift.toNat ≤ tcpMaxrxtshift := by
    rw [hone]
    decide
  have hreach : ReachedBy network ShiftInTable n :=
    .runGuarded (fun _ _ h => h) (fun _ _ _ hstep => hstep) actions (.init Net.start_initial) hn
  exact ⟨n, hone, hout, rexmt_runs_iff_outstanding hreach hshift (by omega) hstate⟩

end Utcp.Rearming
