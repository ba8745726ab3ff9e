import Utcp.Alignment
import Utcp.Stalls

/-!
A connection that sends one byte at a time, each acknowledged before the next, for as long
as one likes: what the code computes once `snd_nxt` is 2^31 beyond `iss`.
-/

namespace Utcp.LongRuns

open SerialNumbers
open TransitionSystems
open Utcp.Tcp
open Utcp.Utils
open Utcp.Output
open Utcp.CongestionControl
open Utcp.Timers
open Utcp.Input
open Utcp.Api
open Utcp.Steps
open Utcp.Sections
open Utcp.SendLoop
open Utcp.SectionCases
open Utcp.Sender
open Utcp.Karn
open Utcp.Stalls
open Utcp.Alignment

variable {una flight len : Nat} {tcb tcb' : Tcb} {e : Endpoint}

/-- A stream of `len` bytes of which `una` are acknowledged and `flight` more are on their
way, to a peer whose window is one byte; nothing was ever lost. -/
structure Trickle (una flight len : Nat) (tcb : Tcb) : Prop where
  state : tcb.state = .established
  iss : tcb.iss = 0
  sndUna : tcb.sndUna = seqOf una
  sndNxt : tcb.sndNxt = seqOf (una + flight)
  sndMax : tcb.sndMax = seqOf (una + flight)
  head : tcb.sendBufHead = BitVec.ofNat 32 una
  tail : tcb.sendBufTail = BitVec.ofNat 32 len
  sndWnd : tcb.sndWnd = 1
  scaleEnabled : tcb.scaleEnabled = false
  ccOps : tcb.ccOps = .newReno
  caState : tcb.caState = .open
  ssthresh : tcb.ssthresh = 0xFFFFFFFF
  cwnd : tcb.cwnd = BitVec.ofNat 32 (4200 + una)
  recover : tcb.recover = 0
  tfAcknow : tcb.tfAcknow = false

theorem Trickle.flight_eq (h : Trickle una flight len tcb) :
    tcb.sndNxt - tcb.sndUna = BitVec.ofNat 32 flight := by
  rw [h.sndNxt, h.sndUna, ← seqOf_add, BitVec.add_comm]
  exact BitVec.add_sub_cancel _ _

theorem Trickle.cwnd_toNat (h : Trickle una flight len tcb) (huna : una < 2 ^ 31) :
    tcb.cwnd.toNat = 4200 + una := by
  rw [h.cwnd, BitVec.toNat_ofNat, Nat.mod_eq_of_lt (by omega)]

theorem Trickle.sendWindow (h : Trickle una flight len tcb) (huna : una < 2 ^ 31) :
    sendWindow tcb = 1 := by
  have hcwnd := h.cwnd_toNat huna
  apply BitVec.eq_of_toNat_eq
  rw [sendWindow_toNat, h.sndWnd, hcwnd]
  change min 1 (4200 + una) = 1
  omega

theorem Trickle.outputBuffered (h : Trickle una flight len tcb) (hsmall : una + flight < 2 ^ 31 - 1)
    (hlen : una + flight ≤ len) (hfits : len < 2 ^ 32) :
    (outputBuffered tcb).toNat = len - (una + flight) := by
  have hlen' : (BitVec.ofNat 32 len).toNat = len := by
    rw [BitVec.toNat_ofNat, Nat.mod_eq_of_lt hfits]
  have hword : (BitVec.ofNat 32 (una + flight)).toNat = una + flight := by
    rw [BitVec.toNat_ofNat, Nat.mod_eq_of_lt (by omega)]
  rw [Output.outputBuffered, h.sndNxt, h.iss, if_pos (seqOf_beyond hsmall), seqOf_sub, h.tail]
  split
  · rw [toNat_sub_of_ge (by omega), hlen', hword]
  · rename_i hle
    have hge : ¬ (BitVec.ofNat 32 (una + flight)).toNat < (BitVec.ofNat 32 len).toNat := hle
    change 0 = _
    omega

theorem Trickle.outputLength_one (h : Trickle una 0 len tcb) (huna : una < 2 ^ 31)
    (hbuffered : Output.outputBuffered tcb ≠ 0) : outputLength tcb = 1 := by
  have hwindow := h.sendWindow huna
  have hflight : tcb.sndNxt - tcb.sndUna = 0 := h.flight_eq
  have hsome : ¬ Output.outputBuffered tcb < 1 - 0 := by
    intro hnone
    have hnone' : (Output.outputBuffered tcb).toNat < 1 := hnone
    exact hbuffered (BitVec.eq_of_toNat_eq (Nat.lt_one_iff.mp hnone'))
  rw [outputLength, if_pos h.state, hwindow, hflight]
  simp only
  rw [if_neg hsome]
  decide

theorem Trickle.outputLength_full (h : Trickle una 1 len tcb) (huna : una < 2 ^ 31) :
    outputLength tcb = 0 := by
  have hwindow := h.sendWindow huna
  have hflight : tcb.sndNxt - tcb.sndUna = 1 := h.flight_eq
  rw [outputLength, if_pos h.state, hwindow, hflight]
  exact if_neg (by decide)

theorem Trickle.outputLength_done (h : Trickle una 0 una tcb) (hsmall : una < 2 ^ 31 - 1) :
    outputLength tcb = 0 := by
  have hbuffered : Output.outputBuffered tcb = 0 := by
    apply BitVec.eq_of_toNat_eq
    rw [h.outputBuffered (by omega) (by omega) (by omega)]
    exact Nat.sub_self _
  exact (outputLength_zero_iff h.state).mpr (.inr (.inl hbuffered))

/-- A turn that has nothing to send. -/
theorem outputTurn_stops (reading : Reading) (hzero : outputLength tcb = 0) :
    outputTurn reading thAck false tcb = (⟨tcb, []⟩, false) := by
  have hsyn : sendingNewSynFin thAck tcb = false := rfl
  simp only [outputTurn]
  rw [hzero, hsyn]
  rfl

/-- A turn that sends one byte. -/
theorem outputTurn_one {reading : Reading} (halloc : reading.alloc = true) (forceSend : Bool)
    (hone : outputLength tcb = 1) :
    ∃ log, outputTurn reading thAck forceSend tcb =
      (⟨advanceSndNxt (cancelDelack tcb) 1 false, log⟩, true) := by
  have hsyn : sendingNewSynFin thAck tcb = false := rfl
  simp only [outputTurn, utcpSendSegment]
  rw [hone, hsyn, halloc]
  exact ⟨_, rfl⟩

theorem seqOf_succ_sub (pos : Nat) : seqOf (pos + 1) - seqOf pos = 1 := by
  rw [← seqOf_add, BitVec.add_comm]
  exact BitVec.add_sub_cancel _ _

/-- The byte behind everything sent so far raises `snd_max`. -/
theorem nextSndMax_next {pos : Nat} (hnxt : tcb.sndNxt = seqOf pos) (hmax : tcb.sndMax = seqOf pos) :
    nextSndMax tcb 1 = seqOf (pos + 1) := by
  have hbeyond : seqGt (seqOf (pos + 1)) (seqOf pos) = true := by
    rw [seqGt, seqOf_succ_sub]
    decide
  have hnext : tcb.sndNxt + 1 = seqOf (pos + 1) := by
    rw [hnxt]
    exact seqOf_add pos 1
  rw [nextSndMax, hnext, hmax, if_pos hbeyond]

/-- The acknowledgment of the one byte in flight. -/
theorem validAck_next (huna : tcb.sndUna = seqOf una) (hmax : tcb.sndMax = seqOf (una + 1)) :
    validAck tcb (seqOf (una + 1)) = true := by
  rw [validAck, huna, hmax, seqGt, seqLeq, seqOf_succ_sub, BitVec.sub_self]
  decide

theorem Trickle.advance (h : Trickle una 0 len tcb) :
    Trickle una 1 len (advanceSndNxt (cancelDelack tcb) 1 false) := by
  have hcancel : ∃ tTimer tfDelack, cancelDelack tcb = { tcb with tTimer, tfDelack } := by
    unfold cancelDelack
    split
    · exact ⟨_, _, rfl⟩
    · exact ⟨tcb.tTimer, tcb.tfDelack, rfl⟩
  obtain ⟨tTimer, tfDelack, hcancel⟩ := hcancel
  rw [hcancel]
  obtain ⟨_, _, _, heq⟩ := advanceSndNxt_eq { tcb with tTimer, tfDelack } 1 false
  have hnext : tcb.sndNxt + (1 + if false then 1 else 0) = seqOf (una + 1) := by
    rw [h.sndNxt]
    exact seqOf_add una 1
  have hmax : nextSndMax tcb (1 + if false then 1 else 0) = seqOf (una + 1) :=
    nextSndMax_next h.sndNxt h.sndMax
  rw [heq]
  exact ⟨h.state, h.iss, h.sndUna, hnext, hmax, h.head, h.tail, h.sndWnd, h.scaleEnabled, h.ccOps,
    h.caState, h.ssthresh, h.cwnd, h.recover, h.tfAcknow⟩

theorem Trickle.quiet (h : Trickle una flight len tcb) : { tcb with tfAcknow := false } = tcb := by
  rw [← h.tfAcknow]

theorem Trickle.sends (h : Trickle una 0 len tcb) (huna : una < 2 ^ 31)
    (hbuffered : Output.outputBuffered tcb ≠ 0) {readings : Nat → Reading}
    (halloc : ∀ turn, (readings turn).alloc = true) :
    Trickle una 1 len (utcpOutput readings tcb).tcb := by
  have hruns := utcpOutput_runs readings h.state
  rw [h.quiet] at hruns
  obtain ⟨log, hturn⟩ := outputTurn_one (halloc 0) tcb.tfAcknow
    (h.outputLength_one huna hbuffered)
  have hsent := h.advance
  have hfull := hsent.outputLength_full huna
  generalize utcpOutput readings tcb = out at hruns ⊢
  cases hruns with
  | stop hstop =>
      rw [hturn] at hstop
      cases hstop
  | again hagain hrest =>
      rw [hturn] at hagain
      cases hagain
      cases hrest with
      | stop hstop =>
          rw [outputTurn_stops _ hfull] at hstop
          cases hstop
          exact hsent
      | again hagain =>
          rw [outputTurn_stops _ hfull] at hagain
          cases hagain

theorem utcpOutput_stops (readings : Nat → Reading) (hstate : tcb.state = .established)
    (hquiet : tcb.tfAcknow = false) (hzero : outputLength tcb = 0) :
    utcpOutput readings tcb = ⟨tcb, []⟩ := by
  have hruns := utcpOutput_runs readings hstate
  have hsame : { tcb with tfAcknow := false } = tcb := by rw [← hquiet]
  rw [hsame, hquiet] at hruns
  have hturn := outputTurn_stops (readings 0) hzero
  generalize utcpOutput readings tcb = out at hruns ⊢
  cases hruns with
  | stop hstop =>
      rw [hturn] at hstop
      cases hstop
      rfl
  | again hagain =>
      rw [hturn] at hagain
      cases hagain

/-- The segment of the peer that acknowledges `pos` bytes. -/
def ackOf (pos : Nat) : TcpSegment := ⟨⟨0, 0, 8, seqOf pos, 0x50, thAck, 1, 0, 0⟩, []⟩

theorem ackOf_offset (pos : Nat) : dataOffset (ackOf pos).hdr = sizeofTcpHdr := by
  have hoffset : ((0x50 : U8) >>> 4).toNat * 4 = sizeofTcpHdr := by decide
  exact hoffset

theorem ackOf_payload (pos : Nat) : payload (ackOf pos) = [] := List.drop_nil

theorem congControl_newReno (hops : tcb.ccOps = .newReno) (env : Env) (args : CcEventArgs) :
    congControl env tcb args = newRenoCongControl env tcb args := by
  rw [congControl, hops]

theorem newReno_grows (env : Env) (rttUs : U32) (hops : tcb.ccOps = .newReno)
    (hstate : tcb.caState = .open) (hslow : tcb.cwnd < tcb.ssthresh) :
    congControl env tcb (.ack 1 rttUs) =
      some ⟨{ tcb with caState := .open, cwnd := tcb.cwnd + 1 }, []⟩ := by
  have hopen : ¬ tcb.caState = .recovery := by
    rw [hstate]
    decide
  have hkept : (if tcb.caState = .loss then .open else tcb.caState) = TcpCaState.open := by
    rw [hstate]
    decide
  have hbyte : (if 1 < mss then 1 else mss) = (1 : U32) := by decide
  rw [congControl_newReno hops]
  simp only [newRenoCongControl, ccAimd]
  rw [if_neg hopen, if_pos hslow, hkept, hbyte]
  rfl

theorem Trickle.acked (h : Trickle una 1 len tcb) (huna : una < 2 ^ 31) (env : Env) :
    ∃ out, handleAck env tcb (ackOf (una + 1)) = some out ∧ Trickle (una + 1) 0 len out.tcb ∧
      out.tcb.tDupacks = 0 := by
  have hack : validAck tcb (ackOf (una + 1)).hdr.thAck = true := validAck_next h.sndUna h.sndMax
  have hnewly : (ackOf (una + 1)).hdr.thAck - tcb.sndUna = 1 := by
    rw [h.sndUna]
    exact seqOf_succ_sub una
  have hnxt : (if seqGt (ackOf (una + 1)).hdr.thAck tcb.sndNxt then (ackOf (una + 1)).hdr.thAck
      else tcb.sndNxt) = seqOf (una + 1 + 0) := by
    rw [h.sndNxt]
    exact ite_self _
  have hcwnd := h.cwnd_toNat huna
  obtain ⟨_, _, _, _, _, _, _, heq⟩ := beforeAckEvent_eq env tcb (ackOf (una + 1))
  have hslow : (beforeAckEvent env tcb (ackOf (una + 1))).tcb.cwnd <
      (beforeAckEvent env tcb (ackOf (una + 1))).tcb.ssthresh := by
    rw [heq]
    change tcb.cwnd < tcb.ssthresh
    rw [BitVec.lt_def, hcwnd, h.ssthresh]
    change 4200 + una < 4294967295
    omega
  have hgrows := newReno_grows env (measureRtt env (ackOf (una + 1))
    (acceptAck tcb (ackOf (una + 1)).hdr)).2 (by rw [heq]; exact h.ccOps)
    (by rw [heq]; exact h.caState) hslow
  rw [handleAck, if_pos hack]
  simp only
  rw [hnewly, hgrows]
  refine ⟨_, rfl, ?_⟩
  simp only
  rw [heq]
  refine ⟨⟨h.state, h.iss, rfl, hnxt, h.sndMax, ?_, h.tail, ?_, h.scaleEnabled, h.ccOps, rfl,
    h.ssthresh, ?_, h.recover, h.tfAcknow⟩, rfl⟩
  · change tcb.sendBufHead + ((ackOf (una + 1)).hdr.thAck - tcb.sndUna) = _
    rw [hnewly, h.head, BitVec.ofNat_add]
    rfl
  · change getScaledWin tcb (ackOf (una + 1)).hdr = 1
    rw [getScaledWin, h.scaleEnabled]
    rfl
  · change tcb.cwnd + 1 = _
    rw [h.cwnd, ← Nat.add_assoc, BitVec.ofNat_add _ 1]
    rfl

theorem ackOf_options (env : Env) (tcb : Tcb) (pos : Nat) :
    processWindowOption env (ackOf pos) tcb = tcb := by
  rw [processWindowOption, ackOf_offset, if_neg (Nat.lt_irrefl _)]

theorem run_ackOf {pos : Nat} {out : Out} (hstate : e.tcb.state = .established)
    (hacked : handleAck (.still 0) e.tcb (ackOf pos) = some out) :
    e.run (arrives (ackOf pos)) =
      some (e.finish ⟨(utcpOutput (Env.still 0).output out.tcb).tcb,
        out.log ++ (utcpOutput (Env.still 0).output out.tcb).log⟩) := by
  have hbare : handleData (.still 0) out.tcb (ackOf pos) =
      utcpOutput (Env.still 0).output out.tcb := if_pos (ackOf_payload pos)
  simp only [arrives, Endpoint.run, utcpInput]
  rw [hstate]
  simp only [handleReceivedData]
  rw [ackOf_options, hacked]
  simp only [Option.bind_eq_bind, Option.bind_some, Option.map_some]
  rw [hbare]

theorem utcpSend_one (envs : Nat → Env) (byte : U8) (hroom : sendFreeSpace tcb = sendBufSize) :
    utcpSend envs tcb [byte] =
      (⟨(utcpOutput (envs 0).output (writeChunk tcb [byte])).tcb,
        (utcpOutput (envs 0).output (writeChunk tcb [byte])).log ++ []⟩, []) := by
  have hopen : ¬ ([byte] = [] ∨ sendFreeSpace tcb = 0) := by
    rw [hroom]
    simp [sendBufSize]
  have hall : min [byte].length (sendFreeSpace tcb).toNat = 1 := by
    rw [hroom]
    rfl
  change sendLoop envs 1 0 tcb [byte] = _
  rw [sendLoop, if_neg hopen]
  simp only
  rw [hall]
  rfl

/-- All that was written is acknowledged. -/
structure Drained (n : Nat) (e : Endpoint) : Prop where
  written : e.written.length = n
  pending : e.pending = []
  trickle : Trickle n 0 n e.tcb

/-- The last byte is on its way. -/
structure Sent (n : Nat) (e : Endpoint) : Prop where
  written : e.written.length = n + 1
  pending : e.pending = []
  trickle : Trickle n 1 (n + 1) e.tcb

theorem Trickle.write (h : Trickle una 0 una tcb) (byte : U8) :
    Trickle una 0 (una + 1) (writeChunk tcb [byte]) := by
  have htail : tcb.sendBufTail + BitVec.ofNat 32 [byte].length = BitVec.ofNat 32 (una + 1) := by
    rw [h.tail, ← BitVec.ofNat_add]
    rfl
  exact ⟨h.state, h.iss, h.sndUna, h.sndNxt, h.sndMax, h.head, htail, h.sndWnd, h.scaleEnabled,
    h.ccOps, h.caState, h.ssthresh, h.cwnd, h.recover, h.tfAcknow⟩

/-- The application writes one byte. -/
def oneByte : Section := .send (fun _ => .still 0) [0]

theorem Drained.send {n : Nat} (h : Drained n e) (hn : n < 2 ^ 31 - 1) :
    ∃ e', e.next oneByte = some e' ∧ Sent n e' := by
  have hroom : sendFreeSpace e.tcb = sendBufSize := by
    rw [sendFreeSpace, h.trickle.head, h.trickle.tail, BitVec.sub_self]
    rfl
  have hwritten := h.trickle.write 0
  have hone : (outputBuffered (writeChunk e.tcb [0])).toNat = 1 := by
    rw [hwritten.outputBuffered (by omega) (by omega) (by omega)]
    omega
  have hsent : Trickle n 1 (n + 1) (utcpOutput (Env.still 0).output (writeChunk e.tcb [0])).tcb := by
    refine hwritten.sends (by omega) (fun hnone => ?_) fun _ => rfl
    rw [hnone] at hone
    exact absurd hone (by decide)
  have hrun : e.run oneByte = some (e.sendSection (fun _ => .still 0) [0]) :=
    if_pos ⟨h.trickle.state, h.pending⟩
  have hsection := utcpSend_one (fun _ => .still 0) 0 hroom
  refine ⟨(e.sendSection (fun _ => .still 0) [0]).1, ?_, ?_, ?_, ?_⟩
  · rw [Endpoint.next, hrun, Option.map_some]
  · rw [Endpoint.sendSection, hsection]
    simp [Endpoint.finish, h.written]
  · rw [Endpoint.sendSection, hsection]
    rfl
  · rw [Endpoint.sendSection, hsection]
    exact hsent

theorem Sent.acked {n : Nat} (h : Sent n e) (hn : n + 1 < 2 ^ 31 - 1) :
    ∃ e', e.next (arrives (ackOf (n + 1))) = some e' ∧ Drained (n + 1) e' := by
  obtain ⟨out, hacked, hdone, -⟩ := h.trickle.acked (by omega) (.still 0)
  have hrun := run_ackOf h.trickle.state hacked
  rw [utcpOutput_stops _ hdone.state hdone.tfAcknow (hdone.outputLength_done hn)] at hrun
  have hnext : e.next (arrives (ackOf (n + 1))) = some (e.finish ⟨out.tcb, out.log ++ []⟩).1 := by
    rw [Endpoint.next, hrun, Option.map_some]
  exact ⟨_, hnext, h.written, h.pending, hdone⟩

/-- The peer opens the connection with a window of one byte. -/
def opening : List Section := [arrives (peerSegment 7 thSyn 1 []), arrives (ackOf 0)]

theorem drained_start : ∃ e, runAll Endpoint.next fresh opening = some e ∧ Drained 0 e := by
  have hends : (runAll Endpoint.next fresh opening).map (fun e =>
      decide (e.written.length = 0 ∧ e.pending = [] ∧ e.tcb.state = .established ∧
        e.tcb.iss = 0 ∧ e.tcb.sndUna = 1 ∧ e.tcb.sndNxt = 1 ∧ e.tcb.sndMax = 1 ∧
        e.tcb.sendBufHead = 0 ∧ e.tcb.sendBufTail = 0 ∧ e.tcb.sndWnd = 1 ∧
        e.tcb.scaleEnabled = false ∧ e.tcb.ccOps = .newReno ∧ e.tcb.caState = .open ∧
        e.tcb.ssthresh = 0xFFFFFFFF ∧ e.tcb.cwnd = 4200 ∧ e.tcb.recover = 0 ∧
        e.tcb.tfAcknow = false)) = some true := by
    decide +kernel
  obtain ⟨e, hrun, hends⟩ := Option.map_eq_some_iff.mp hends
  obtain ⟨hwritten, hpending, hstate, hiss, huna, hnxt, hmax, hhead, htail, hwnd, hscale, hops, hca,
    hssthresh, hcwnd, hrecover, hacknow⟩ := of_decide_eq_true hends
  exact ⟨e, hrun, hwritten, hpending, hstate, hiss, huna, hnxt, hmax, hhead, htail, hwnd, hscale,
    hops, hca, hssthresh, hcwnd, hrecover, hacknow⟩

theorem drained (n : Nat) (hn : n < 2 ^ 31 - 1) : ∃ e, Reachable endpoints e ∧ Drained n e := by
  induction n with
  | zero =>
      obtain ⟨e, hrun, he⟩ := drained_start
      have hreach : Reachable endpoints e :=
        .runAll (fun _ _ _ h => ⟨trivial, endpoints_next h⟩) opening (.init ⟨0, 0, .inr rfl⟩) hrun
      exact ⟨e, hreach, he⟩
  | succ n ih =>
      obtain ⟨e, hreach, he⟩ := ih (by omega)
      obtain ⟨e', hsend, he'⟩ := he.send (by omega)
      obtain ⟨e'', hack, he''⟩ := he'.acked hn
      have hreach' : Reachable endpoints e' := .step hreach trivial (endpoints_next hsend)
      exact ⟨e'', .step hreach' trivial (endpoints_next hack), he''⟩

/-- After 2^31 - 1 bytes `snd_nxt` is no longer above `iss`: all that was ever written
counts as not yet sent. -/
theorem buffered_after_half :
    ¬ ∀ e, Reachable endpoints e → e.tcb.state = .established →
      outputBuffered e.tcb = e.tcb.sendBufTail - (e.tcb.sndNxt - e.tcb.iss - 1) := by
  intro hexact
  obtain ⟨e, hreach, he⟩ := drained (2 ^ 31 - 2) (by decide)
  obtain ⟨e', hsend, he'⟩ := he.send (by decide)
  have hnxt : e'.tcb.sndNxt = 0x80000000 := he'.trickle.sndNxt
  have htail : e'.tcb.sendBufTail = 0x7FFFFFFF := he'.trickle.tail
  have hall := hexact e' (.step hreach trivial (endpoints_next hsend)) he'.trickle.state
  rw [outputBuffered, hnxt, htail, he'.trickle.iss] at hall
  exact absurd hall (by decide)

/-- A connection with `una` bytes acknowledged, one more on its way, and `dups` duplicate
ACKs counted. -/
structure Stuck (una : Nat) (dups : U8) (e : Endpoint) : Prop where
  trickle : ∃ len, Trickle una 1 len e.tcb
  tDupacks : e.tcb.tDupacks = dups

theorem ackOf_window (h : Trickle una flight len tcb) (pos : Nat) :
    getScaledWin tcb (ackOf pos).hdr = 1 := by
  rw [getScaledWin, h.scaleEnabled]
  rfl

theorem utcpOutput_tDupacks (readings : Nat → Reading) (tcb : Tcb) :
    (utcpOutput readings tcb).tcb.tDupacks = tcb.tDupacks := by
  obtain ⟨_, _, _, _, _, _, _, heq⟩ := utcpOutput_eq readings tcb
  rw [heq]

/-- Once `snd_nxt` has wrapped around `iss`, the ACK brings out a byte that was never
written. -/
theorem Sent.overruns {n : Nat} (h : Sent n e) (hn : n + 1 = 2 ^ 31 - 1) :
    ∃ e', e.next (arrives (ackOf (n + 1))) = some e' ∧ Stuck (n + 1) 0 e' := by
  obtain ⟨out, hacked, hdone, hdups⟩ := h.trickle.acked (by omega) (.still 0)
  have hrun := run_ackOf h.trickle.state hacked
  have hbuffered : outputBuffered out.tcb ≠ 0 := by
    have hnxt := hdone.sndNxt
    have htail := hdone.tail
    rw [hn] at hnxt htail
    rw [outputBuffered, hnxt, htail, hdone.iss]
    decide
  have hsent : Trickle (n + 1) 1 (n + 1) (utcpOutput (Env.still 0).output out.tcb).tcb :=
    hdone.sends (by omega) hbuffered fun _ => rfl
  have hdups' := (utcpOutput_tDupacks (Env.still 0).output out.tcb).trans hdups
  have hnext : e.next (arrives (ackOf (n + 1))) =
      some (e.finish ⟨(utcpOutput (Env.still 0).output out.tcb).tcb,
        out.log ++ (utcpOutput (Env.still 0).output out.tcb).log⟩).1 := by
    rw [Endpoint.next, hrun, Option.map_some]
  exact ⟨_, hnext, ⟨_, hsent⟩, hdups'⟩

theorem Trickle.sndUna_ne (h : Trickle una 1 len tcb) : tcb.sndUna ≠ tcb.sndMax := by
  intro hnone
  have hone := h.flight_eq
  rw [h.sndNxt, ← h.sndMax, ← hnone, BitVec.sub_self] at hone
  exact absurd hone (by decide)

theorem recoveryDupAck_idle {totalDups : U32} (hbehind : seqGt tcb.sndUna tcb.recover = false)
    (hfew : ¬ totalDups > 3) (env : Env) : recoveryDupAck env tcb totalDups = ⟨tcb, []⟩ := by
  have hmore : ¬ (totalDups > 3 ∧ tcb.caState = .recovery) := fun h => hfew h.1
  rw [recoveryDupAck, hbehind, if_neg Bool.false_ne_true, if_neg hmore]
  exact ite_self _

theorem Trickle.duplicate (h : Trickle una 1 len tcb) (hfew : tcb.tDupacks.toNat ≤ 2)
    (hbehind : seqGt (seqOf una) 0 = false) (env : Env) :
    ∃ out, handleAck env tcb (ackOf una) = some out ∧ Trickle una 1 len out.tcb ∧
      out.tcb.tDupacks = tcb.tDupacks + 1 := by
  have hsame : (ackOf una).hdr.thAck = tcb.sndUna := h.sndUna.symm
  have hvalid := validAck_self hsame
  have hwin := ackOf_window h una
  have hflight := h.sndUna_ne
  have hcount : (if tcb.tDupacks < 255 then tcb.tDupacks + 1 else tcb.tDupacks) =
      tcb.tDupacks + 1 := by
    have hless : tcb.tDupacks.toNat < 255 := by omega
    exact if_pos hless
  have hthree : ¬ (tcb.tDupacks + 1).setWidth 32 > (3 : U32) := by
    rw [gt_iff_lt, BitVec.lt_def, BitVec.toNat_setWidth, BitVec.toNat_add]
    change ¬ 3 < (tcb.tDupacks.toNat + 1) % 2 ^ 8 % 2 ^ 32
    omega
  rw [handleAck, if_neg (by rw [hvalid]; decide), if_pos hsame]
  simp only [handleSameAck]
  rw [hwin, h.sndWnd, if_neg (by decide), if_pos ⟨ackOf_payload una, hflight⟩, hcount]
  rw [congControl_newReno (by exact h.ccOps), newRenoCongControl]
  refine ⟨_, rfl, ?_⟩
  have hkept : Trickle una 1 len { tcb with sndWnd := 1, tDupacks := tcb.tDupacks + 1 } :=
    ⟨h.state, h.iss, h.sndUna, h.sndNxt, h.sndMax, h.head, h.tail, rfl, h.scaleEnabled, h.ccOps,
      h.caState, h.ssthresh, h.cwnd, h.recover, h.tfAcknow⟩
  have hnothing : recoveryDupAck env { tcb with sndWnd := 1, tDupacks := tcb.tDupacks + 1 }
      ((tcb.tDupacks + 1).setWidth 32) =
        ⟨{ tcb with sndWnd := 1, tDupacks := tcb.tDupacks + 1 }, []⟩ := by
    apply recoveryDupAck_idle _ hthree
    rw [hkept.sndUna, hkept.recover]
    exact hbehind
  rw [hnothing]
  exact ⟨hkept, rfl⟩

theorem Stuck.duplicate {dups : U8} (h : Stuck una dups e) (huna : una < 2 ^ 31)
    (hfew : dups.toNat ≤ 2) (hbehind : seqGt (seqOf una) 0 = false) :
    ∃ e', e.next (arrives (ackOf una)) = some e' ∧ Stuck una (dups + 1) e' := by
  obtain ⟨⟨len, htrickle⟩, hdups⟩ := h
  rw [← hdups] at hfew
  obtain ⟨out, hacked, hkept, hmore⟩ := htrickle.duplicate hfew hbehind (.still 0)
  have hrun := run_ackOf htrickle.state hacked
  rw [utcpOutput_stops _ hkept.state hkept.tfAcknow (hkept.outputLength_full huna)] at hrun
  have hnext : e.next (arrives (ackOf una)) = some (e.finish ⟨out.tcb, out.log ++ []⟩).1 := by
    rw [Endpoint.next, hrun, Option.map_some]
  rw [hdups] at hmore
  exact ⟨_, hnext, ⟨len, hkept⟩, hmore⟩

end Utcp.LongRuns
