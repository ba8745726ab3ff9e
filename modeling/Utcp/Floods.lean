import Utcp.Divisions
import Utcp.FlowControl

/-!
A client whose SYN is duplicated for as long as one likes: every copy brings out a SYN-ACK
with a number of its own, and what the code computes once these numbers have gone round.
-/

namespace Utcp.Floods

open SerialNumbers
open TransitionSystems
open Utcp.Tcp
open Utcp.Utils
open Utcp.Output
open Utcp.CongestionControl
open Utcp.Timers
open Utcp.Input
open Utcp.Api
open Utcp.Network
open Utcp.Steps
open Utcp.Sections
open Utcp.Opening
open Utcp.SendLoop
open Utcp.SectionCases
open Utcp.Sender
open Utcp.Wire
open Utcp.Karn
open Utcp.Handshake
open Utcp.Stalls
open Utcp.Reliable
open Utcp.LongRuns
open Utcp.Deadlock
open Utcp.Divisions
open Utcp.FlowControl

variable {tcb tcb' : Tcb} {seg : TcpSegment} {log : List Event} {e e' : Endpoint} {n n' : Net}
  {count : Nat}

/-- The options of a segment, as a peer with the scale of this code reads them. -/
def Teaches (flags : U8) (seg : TcpSegment) : Prop :=
  ∃ timeUs, ∀ env tcb, processWindowOption env seg tcb = learn tcb timeUs flags 5

/-- The SYN of the client. -/
structure FirstSyn (seg : TcpSegment) : Prop where
  flags : seg.hdr.thFlags = thSyn
  acknowledged : seg.hdr.thAck = 0
  window : seg.hdr.thWin = 65535
  empty : payload seg = []
  options : Teaches thSyn seg

/-- A SYN-ACK with the number `count`. -/
structure SynAckOf (count : Nat) (seg : TcpSegment) : Prop where
  flags : seg.hdr.thFlags = thSyn ||| thAck
  sequence : seg.hdr.thSeq = BitVec.ofNat 32 count
  acknowledged : seg.hdr.thAck = 1
  options : Teaches (thSyn ||| thAck) seg

/-- The block of a server that has sent the SYN-ACKs up to number `count`. -/
structure Answering (count : Nat) (tcb : Tcb) : Prop where
  state : tcb.state = .synRecv
  iss : tcb.iss = 0
  sndUna : tcb.sndUna = 0
  sndNxt : tcb.sndNxt = seqOf count
  sndMax : tcb.sndMax = seqOf count
  sndWnd : tcb.sndWnd = 65535
  head : tcb.sendBufHead = 0
  tail : tcb.sendBufTail = 0
  rcvNxt : tcb.rcvNxt = 1
  sndScale : tcb.sndScale = 5
  rcvScale : tcb.rcvScale = 5
  scaleEnabled : tcb.scaleEnabled = true
  ccOps : tcb.ccOps = .newReno
  unopened : Unopened tcb
  tfAcknow : tcb.tfAcknow = false
  tfDelack : tcb.tfDelack = false

theorem FirstSyn.window_eq (h : FirstSyn seg) (tcb : Tcb) : getScaledWin tcb seg.hdr = 65535 := by
  have hsyn : hasFlag thSyn thSyn = true := by decide
  rw [getScaledWin, h.flags, hsyn, h.window, Bool.not_true, Bool.and_false,
    if_neg Bool.false_ne_true]
  decide

theorem Answering.learned (h : Answering count tcb) (timeUs : U64) (tDupacks : U8) :
    Answering count { learn tcb timeUs thSyn 5 with sndWnd := 65535, tDupacks } :=
  ⟨h.state, h.iss, h.sndUna, h.sndNxt, h.sndMax, rfl, h.head, h.tail, h.rcvNxt, rfl, h.rcvScale, rfl,
    h.ccOps, ⟨h.unopened.cwnd, h.unopened.ssthresh, h.unopened.caState, h.unopened.recover⟩,
    h.tfAcknow, h.tfDelack⟩

/-- A copy of the SYN counts as a duplicate ACK. -/
theorem Answering.counted (h : Answering count tcb) (hcount : count + 1 < 2 ^ 32)
    (hsyn : FirstSyn seg) (env : Env) :
    ∃ tcb', handleAck env (processWindowOption env seg tcb) seg = some ⟨tcb', []⟩ ∧
      Answering count tcb' := by
  obtain ⟨timeUs, hoptions⟩ := hsyn.options
  have hlearned := h.learned timeUs tcb.tDupacks
  rw [hoptions]
  have hsame : { learn tcb timeUs thSyn 5 with sndWnd := 65535, tDupacks := tcb.tDupacks } =
      learn tcb timeUs thSyn 5 := by
    rw [← h.sndWnd]
    rfl
  rw [hsame] at hlearned
  generalize learn tcb timeUs thSyn 5 = learned at hlearned
  have hold : validAck learned seg.hdr.thAck = false := by
    rw [hsyn.acknowledged, validAck, hlearned.sndUna]
    rfl
  have hflight : learned.sndUna ≠ learned.sndMax := by
    intro hnone
    have hword := congrArg BitVec.toNat hnone
    rw [hlearned.sndUna, hlearned.sndMax, seqOf, BitVec.toNat_ofNat, Nat.mod_eq_of_lt hcount] at hword
    exact absurd hword.symm (Nat.succ_ne_zero count)
  have hnot : ¬ getScaledWin learned seg.hdr > learned.sndWnd := by
    rw [hsyn.window_eq, hlearned.sndWnd]
    exact BitVec.lt_irrefl _
  rw [handleAck, hold, if_neg Bool.false_ne_true,
    if_pos (hsyn.acknowledged.trans hlearned.sndUna.symm)]
  simp only [handleSameAck]
  rw [if_neg hnot, if_pos ⟨hsyn.empty, hflight⟩, hsyn.window_eq]
  generalize (if learned.tDupacks < 255 then learned.tDupacks + 1 else learned.tDupacks) = tDupacks
  have hcounted : Answering count { learned with sndWnd := 65535, tDupacks } :=
    ⟨hlearned.state, hlearned.iss, hlearned.sndUna, hlearned.sndNxt, hlearned.sndMax, rfl,
      hlearned.head, hlearned.tail, hlearned.rcvNxt, hlearned.sndScale, hlearned.rcvScale,
      hlearned.scaleEnabled, hlearned.ccOps, ⟨hlearned.unopened.cwnd, hlearned.unopened.ssthresh,
        hlearned.unopened.caState, hlearned.unopened.recover⟩, hlearned.tfAcknow, hlearned.tfDelack⟩
  exact ⟨_, hcounted.unopened.dupAck hcounted.ccOps _, hcounted⟩

theorem Answering.advance (h : Answering count tcb) :
    Answering (count + 1) (advanceSndNxt tcb 0 true) := by
  obtain ⟨_, _, _, heq⟩ := advanceSndNxt_eq tcb 0 true
  have hnxt : tcb.sndNxt + (0 + if true then 1 else 0) = seqOf (count + 1) := by
    rw [h.sndNxt]
    exact seqOf_add count 1
  have hmax : nextSndMax tcb (0 + if true then 1 else 0) = seqOf (count + 1) :=
    nextSndMax_next h.sndNxt h.sndMax
  rw [heq]
  exact ⟨h.state, h.iss, h.sndUna, hnxt, hmax, h.sndWnd, h.head, h.tail, h.rcvNxt, h.sndScale,
    h.rcvScale, h.scaleEnabled, h.ccOps,
    ⟨h.unopened.cwnd, h.unopened.ssthresh, h.unopened.caState, h.unopened.recover⟩, h.tfAcknow,
    h.tfDelack⟩

/-- And it brings out one more SYN-ACK. -/
theorem Answering.answers (h : Answering count tcb) {readings : Nat → Reading}
    (halloc : (readings 0).alloc = true) :
    Answering (count + 1) (utcpOutput readings tcb).tcb ∧
      ∃ synAck, segments (utcpOutput readings tcb).log = [synAck] ∧ SynAckOf (count + 1) synAck := by
  have hnew : sendingNewSynFin (tcpOutflags tcb.state) tcb = true := by
    have hsyn : hasFlag (tcpOutflags .synRecv) (thSyn ||| thFin) = true := by decide
    rw [sendingNewSynFin, h.state, h.sndNxt, h.sndMax, hsyn, beq_self_eq_true, Bool.and_true]
  have hkept : cancelDelack { tcb with tfAcknow := false } = tcb := by
    have hquiet : { tcb with tfAcknow := false } = tcb := by rw [← h.tfAcknow]
    rw [hquiet, cancelDelack, h.tfDelack]
    rfl
  have hends := @utcpOutput_ends tcb readings (by rw [h.state]; decide)
  generalize utcpOutput readings tcb = out at hends ⊢
  cases hends with
  | quiet hsyn => exact absurd (hsyn.symm.trans hnew) (by decide)
  | failed hnone => exact absurd (hnone.symm.trans halloc) (by decide)
  | bare hsyn => exact absurd (hsyn.symm.trans hnew) (by decide)
  | syn hsyn log hlog =>
      rw [hkept] at hlog ⊢
      refine ⟨h.advance, _, hlog, ?_, h.sndNxt, h.rcvNxt, ?_⟩
      · rw [h.state]
        rfl
      · refine ⟨(readings 0).timeUs, fun env tcb' => ?_⟩
        rw [processWindowOption_buildSegment, h.rcvScale, h.state]
        rfl

theorem run_incomplete {env : Env} {peer : Peer} {acked : Out} (hstate : e.tcb.state = .synRecv)
    (hnot : completesHandshake e.tcb seg.hdr = false)
    (hacked : handleAck env (processWindowOption env seg e.tcb) seg = some acked) :
    e.run (.input env seg peer) =
      some (e.finish ⟨(handleData env acked.tcb seg).tcb,
        acked.log ++ (handleData env acked.tcb seg).log⟩) := by
  simp only [Endpoint.run]
  rw [utcpInput_incomplete hstate hnot, handleReceivedData, hacked]
  rfl

theorem Answering.again {peer : Peer} (h : Answering count e.tcb) (hcount : count + 1 < 2 ^ 32)
    (hsyn : FirstSyn seg) :
    ∃ e' log synAck, e.run (.input (.still 0) seg peer) = some (e', log) ∧ e'.written = e.written ∧
      e'.pending = e.pending ∧ Answering (count + 1) e'.tcb ∧ segments log = [synAck] ∧
      SynAckOf (count + 1) synAck := by
  obtain ⟨tcb', hacked, hcounted⟩ := h.counted hcount hsyn (.still 0)
  have hnot : completesHandshake e.tcb seg.hdr = false := by
    have hbare : hasFlag thSyn thAck = false := by decide
    rw [completesHandshake, hsyn.flags, hbare, Bool.false_and]
  have hdata : handleData (.still 0) tcb' seg = utcpOutput (Env.still 0).output tcb' :=
    if_pos hsyn.empty
  obtain ⟨hnext, synAck, hsent, hsynAck⟩ := @hcounted.answers tcb' count (Env.still 0).output rfl
  have hrun := @run_incomplete seg e (.still 0) peer _ h.state hnot hacked
  rw [hdata] at hrun
  exact ⟨_, _, synAck, hrun, rfl, rfl, hnext, hsent, hsynAck⟩

/-- The client waits for its SYN-ACK. -/
structure Waiting (e : Endpoint) : Prop where
  written : e.written = []
  pending : e.pending = []
  state : e.tcb.state = .synSent
  sndNxt : e.tcb.sndNxt = 1
  tail : e.tcb.sendBufTail = 0
  used : bufUsed e.tcb = 0
  oooHead : e.tcb.oooHead = []
  oooBytes : e.tcb.oooBytes = 0
  rcvScale : e.tcb.rcvScale = 5
  tDupacks : e.tcb.tDupacks = 0
  tfAcknow : e.tcb.tfAcknow = false
  tfDelack : e.tcb.tfDelack = false
  timers : ∀ timer, timer ≠ .rexmt → e.tcb.tTimer timer = 0

/-- The client waits, and the server has answered `count + 1` copies of its SYN. -/
structure Flooded (count : Nat) (n : Net) : Prop where
  reached : Reachable network n
  client : Waiting (n.endpoint .client)
  written : (n.endpoint .server).written = []
  pending : (n.endpoint .server).pending = []
  server : Answering count (n.tcb .server)
  syn : ∃ seg, n.inbox .server = [seg] ∧ FirstSyn seg
  synAck : ∃ seg, n.inbox .client = [seg] ∧ SynAckOf count seg

theorem Flooded.round (h : Flooded count n) (hcount : count + 1 < 2 ^ 32) :
    ∃ n', Flooded (count + 1) n' := by
  obtain ⟨syn, hsyns, hsyn⟩ := h.syn
  obtain ⟨synAck, hsynAcks, -⟩ := h.synAck
  obtain ⟨n₁, hstep₁, hends₁, hmail₁, hsyns₁⟩ := @step_lost _ n .client .server rfl hsynAcks
  rw [hsyns] at hsyns₁
  obtain ⟨n₂, hstep₂, hends₂, hsyns₂, hmail₂⟩ := @step_duplicated _ n₁ .server .client rfl hsyns₁
  have hends := hends₂.trans hends₁
  rw [hmail₁] at hmail₂
  have hserver := h.server
  have hclient := h.client
  have hwritten := h.written
  have hpending := h.pending
  rw [Net.tcb, ← hends] at hserver
  rw [← hends] at hclient hwritten hpending
  obtain ⟨e₃, log₃, synAck₃, hrun₃, hwritten₃, hpending₃, hserver₃, hsent₃, hsynAck₃⟩ :=
    hserver.again hcount hsyn
  obtain ⟨n₃, hstep₃, hself₃, hother₃, hsyns₃, hmail₃⟩ :=
    @step_received _ _ _ _ n₂ .server .client rfl _ hsyns₂ hrun₃
  rw [hmail₂, hsent₃] at hmail₃
  have hreached : Reachable network n₃ :=
    .step (.step (.step h.reached trivial hstep₁) trivial hstep₂) trivial hstep₃
  subst hself₃
  rw [← hother₃] at hclient
  exact ⟨n₃, hreached, hclient, hwritten₃.trans hwritten, hpending₃.trans hpending, hserver₃,
    ⟨syn, hsyns₃, hsyn⟩, synAck₃, hmail₃, hsynAck₃⟩

/-- The SYN arrives, and a copy of it stays in the network. -/
def calling : List Action :=
  [.run .client (.connect (.still 0) 2 20), .duplicate .server 0, .deliver .server (.still 0) 0]

/-- The block with which the client on port 10 sends its SYN. -/
def caller : Tcb := { utcpSocket with srcPort := 10, dstPort := 20 }

/-- The block with which the server sends its SYN-ACK. -/
def called : Tcb :=
  { utcpSocket with srcPort := 20, dstPort := 10, rcvNxt := 1, scaleEnabled := true }

theorem flooded_start : ∃ n, Flooded 0 n := by
  obtain ⟨n, hreach, hcheck⟩ := @reachable_where calling (fun n =>
    decide (n.inbox .server = [buildSegment 0 caller 0 thSyn 0] ∧
      n.inbox .client = [buildSegment 0 called 0 (thSyn ||| thAck) 0] ∧
      (n.endpoint .client).written = [] ∧ (n.endpoint .client).pending = [] ∧
      (n.endpoint .server).written = [] ∧ (n.endpoint .server).pending = []) &&
    decide ((n.tcb .client).state = .synSent ∧ (n.tcb .client).sndNxt = 1 ∧
      (n.tcb .client).sendBufTail = 0 ∧
      bufUsed (n.tcb .client) = 0 ∧ (n.tcb .client).oooHead.isEmpty ∧
      (n.tcb .client).oooBytes = 0 ∧ (n.tcb .client).rcvScale = 5 ∧
      (n.tcb .client).tDupacks = 0 ∧ (n.tcb .client).tfAcknow = false ∧
      (n.tcb .client).tfDelack = false ∧
      ∀ timer ∈ Timer.all, timer ≠ .rexmt → (n.tcb .client).tTimer timer = 0) &&
    decide ((n.tcb .server).state = .synRecv ∧ (n.tcb .server).iss = 0 ∧
      (n.tcb .server).sndUna = 0 ∧ (n.tcb .server).sndNxt = 1 ∧ (n.tcb .server).sndMax = 1 ∧
      (n.tcb .server).sndWnd = 65535 ∧ (n.tcb .server).sendBufHead = 0 ∧
      (n.tcb .server).sendBufTail = 0 ∧ (n.tcb .server).rcvNxt = 1 ∧
      (n.tcb .server).sndScale = 5 ∧ (n.tcb .server).rcvScale = 5 ∧
      (n.tcb .server).scaleEnabled = true ∧ (n.tcb .server).ccOps = .newReno ∧
      ((n.tcb .server).cwnd = 0 ∧ (n.tcb .server).ssthresh = 0 ∧ (n.tcb .server).caState = .open ∧
        (n.tcb .server).recover = (n.tcb .server).sndUna) ∧
      (n.tcb .server).tfAcknow = false ∧ (n.tcb .server).tfDelack = false)) (by decide +kernel)
  simp only [Bool.and_eq_true, decide_eq_true_eq, List.isEmpty_iff] at hcheck
  obtain ⟨⟨⟨hsyn, hsynAck, hwritten, hpending, hwritten', hpending'⟩, hstate, hnxt, htail,
    hused, hqueue, hooo, hscale, hdups, hacknow, hdelack, htimers⟩, hstate', hiss', huna',
    hnxt', hmax', hwnd', hhead', htail', hrcv', hscale', hscale'', henabled', hops',
    ⟨hcwnd', hssthresh', hca', hrecover'⟩, hacknow', hdelack'⟩ := hcheck
  refine ⟨n, hreach, ?_, hwritten', hpending', ?_, ⟨_, hsyn, ?_⟩, _, hsynAck, ?_⟩
  · exact ⟨hwritten, hpending, hstate, hnxt, htail, hused, hqueue, hooo, hscale, hdups, hacknow,
      hdelack, fun timer => htimers timer (Timer.mem_all timer)⟩
  · exact ⟨hstate', hiss', huna', hnxt', hmax', hwnd', hhead', htail', hrcv', hscale', hscale'',
      henabled', hops', ⟨hcwnd', hssthresh', hca', hrecover'⟩, hacknow', hdelack'⟩
  · exact ⟨rfl, rfl, by decide, List.eq_nil_of_length_eq_zero
      (payload_length_buildSegment _ _ _ _ 0 (by decide)), 0,
      fun env tcb => processWindowOption_buildSegment ..⟩
  · exact ⟨rfl, rfl, rfl, 0, fun env tcb => processWindowOption_buildSegment ..⟩

theorem flooded (count : Nat) (hcount : count < 2 ^ 32) : ∃ n, Flooded count n := by
  induction count with
  | zero => exact flooded_start
  | succ count ih =>
      obtain ⟨n, hn⟩ := ih (by omega)
      exact hn.round hcount

theorem run_awaited {env : Env} {peer : Peer} {cc : Out} (hstate : e.tcb.state = .synSent)
    (hawaited : isAwaitedSynAck e.tcb seg.hdr = true)
    (hcc : congControl env (acceptSynAck env e.tcb seg) .init = some cc) :
    e.run (.input env seg peer) =
      some (e.finish ⟨(utcpOutput env.output (setAcknow cc.tcb)).tcb,
        cc.log ++ (utcpOutput env.output (setAcknow cc.tcb)).log⟩) := by
  simp only [Endpoint.run, utcpInput]
  rw [hstate]
  simp only
  rw [if_pos hawaited, hcc]
  rfl

theorem Waiting.takes {peer : Peer} (h : Waiting e) (hsynAck : SynAckOf count seg) :
    ∃ e' log timeUs, e.run (.input (.still 0) seg peer) = some (e', log) ∧ e'.written = [] ∧
      e'.pending = [] ∧ Holding count 0 false e'.tcb ∧
      segments log = [buildSegment timeUs e'.tcb e'.tcb.sndNxt thAck 0] := by
  obtain ⟨timeUs, hoptions⟩ := hsynAck.options
  have hawaited : isAwaitedSynAck e.tcb seg.hdr = true := by
    rw [isAwaitedSynAck, hsynAck.flags, hsynAck.acknowledged, h.sndNxt]
    decide
  obtain ⟨recover, hinit⟩ := congControl_init (.still 0) (acceptSynAck (.still 0) e.tcb seg)
  have hrun := @run_awaited _ _ (.still 0) peer _ h.state hawaited hinit
  have hholding : Holding count 0 false
      { ccInit (acceptSynAck (.still 0) e.tcb seg) with recover } := by
    rw [acceptSynAck, hoptions]
    refine ⟨rfl, hsynAck.acknowledged, h.tail, ?_, h.used, h.oooHead, h.oooBytes, h.rcvScale, rfl,
      h.tDupacks, h.tfAcknow, h.tfDelack, fun timer _ => ?_⟩
    · change seg.hdr.thSeq + 1 = seqOf count
      rw [hsynAck.sequence, seqOf, BitVec.ofNat_add]
      rfl
    · by_cases htimer : timer = .rexmt
      · exact if_pos htimer
      · exact (if_neg htimer).trans (h.timers timer htimer)
  generalize ({ ccInit (acceptSynAck (.still 0) e.tcb seg) with recover } : Tcb) = left
    at hrun hholding
  obtain ⟨hleaves, hsends⟩ := @utcpOutput_ack left (Env.still 0).output hholding.state
    hholding.tfAcknow rfl hholding.silent
  have hcancel : cancelDelack left = left := by
    rw [cancelDelack, hholding.tfDelack]
    rfl
  rw [hcancel] at hleaves hsends
  generalize utcpOutput (Env.still 0).output (setAcknow left) = out at hrun hleaves hsends
  subst hleaves
  exact ⟨_, _, _, hrun, h.written, h.pending, hholding, hsends⟩

/-- The block of a server that has written `len` bytes, with the stream acknowledged up to
`una` and `flight` bytes on their way, its window grown by `grown` bytes. -/
structure Dripping (len : U32) (una flight grown : Nat) (tcb : Tcb) : Prop where
  state : tcb.state = .established
  iss : tcb.iss = 0
  sndUna : tcb.sndUna = seqOf una
  sndNxt : tcb.sndNxt = seqOf (una + flight)
  sndMax : tcb.sndMax = seqOf (una + flight)
  tail : tcb.sendBufTail = len
  rcvNxt : tcb.rcvNxt = 1
  sndScale : tcb.sndScale = 5
  scaleEnabled : tcb.scaleEnabled = true
  ccOps : tcb.ccOps = .newReno
  caState : tcb.caState = .open
  ssthresh : tcb.ssthresh = 0xFFFFFFFF
  cwnd : tcb.cwnd = BitVec.ofNat 32 (4200 + grown)
  tfAcknow : tcb.tfAcknow = false
  tfDelack : tcb.tfDelack = false

variable {len : U32} {una flight grown pos r : Nat}

theorem Dripping.learned (h : Dripping len una flight grown tcb) (timeUs : U64) (scale : U8)
    (sndWnd : U32) : Dripping len una flight grown { learn tcb timeUs thAck scale with sndWnd } :=
  ⟨h.state, h.iss, h.sndUna, h.sndNxt, h.sndMax, h.tail, h.rcvNxt, h.sndScale, h.scaleEnabled, h.ccOps,
    h.caState, h.ssthresh, h.cwnd, h.tfAcknow, h.tfDelack⟩

theorem handleAck_update {env : Env} (hack : seg.hdr.thAck = tcb.sndUna)
    (hmore : getScaledWin tcb seg.hdr > tcb.sndWnd) :
    handleAck env tcb seg = some ⟨{ tcb with sndWnd := getScaledWin tcb seg.hdr }, []⟩ := by
  rw [handleAck, validAck_self hack, if_neg Bool.false_ne_true, if_pos hack]
  exact if_pos hmore

theorem run_completed {env : Env} {peer : Peer} {cc acked : Out} (hstate : e.tcb.state = .synRecv)
    (hcompletes : completesHandshake e.tcb seg.hdr = true)
    (hcc : congControl env (acceptFinalAck e.tcb seg) .init = some cc)
    (hacked : handleAck env (processWindowOption env seg cc.tcb) seg = some acked) :
    e.run (.input env seg peer) =
      some (e.finish ⟨(handleData env acked.tcb seg).tcb,
        cc.log ++ (acked.log ++ (handleData env acked.tcb seg).log)⟩) := by
  simp only [Endpoint.run, utcpInput]
  rw [hstate]
  simp only [synRecvInput]
  rw [if_pos hcompletes, hcc]
  simp only [Option.bind_eq_bind, Option.bind_some, handleReceivedData]
  rw [hacked]
  rfl

/-- The ACK of the last SYN-ACK opens the connection. -/
theorem Answering.opens {peer : Peer} (h : Answering count e.tcb) (hacks : Acks count 0 seg)
    (hflags : seg.hdr.thFlags = thAck) :
    ∃ e' log, e.run (.input (.still 0) seg peer) = some (e', log) ∧ e'.written = e.written ∧
      e'.pending = e.pending ∧ Dripping 0 count 0 0 e'.tcb ∧ e'.tcb.sendBufHead = 0 ∧
      e'.tcb.sndWnd ≠ 0 ∧ segments log = [] := by
  obtain ⟨timeUs, scale, hoptions⟩ := hacks.options
  have hcompletes : completesHandshake e.tcb seg.hdr = true := by
    have hflag : hasFlag thAck thAck = true := by decide
    rw [completesHandshake, hflags, hflag, hacks.acknowledged, h.sndNxt, beq_self_eq_true]
    rfl
  obtain ⟨recover, hinit⟩ := congControl_init (.still 0) (acceptFinalAck e.tcb seg)
  have hopened : Dripping 0 count 0 0 { ccInit (acceptFinalAck e.tcb seg) with recover } := by
    have hcwnd : mss * iw = BitVec.ofNat 32 (4200 + 0) := by decide
    exact ⟨rfl, h.iss, hacks.acknowledged, h.sndNxt, h.sndMax, h.tail, h.rcvNxt, h.sndScale,
      h.scaleEnabled, h.ccOps, rfl, rfl, hcwnd, h.tfAcknow, h.tfDelack⟩
  have hkept : ({ ccInit (acceptFinalAck e.tcb seg) with recover } : Tcb).sendBufHead = 0 ∧
      ({ ccInit (acceptFinalAck e.tcb seg) with recover } : Tcb).sndWnd = 65535 := ⟨h.head, h.sndWnd⟩
  generalize ({ ccInit (acceptFinalAck e.tcb seg) with recover } : Tcb) = opened
    at hinit hopened hkept
  have hlearned := hopened.learned timeUs scale opened.sndWnd
  have hwindow : (getScaledWin (learn opened timeUs thAck scale) seg.hdr).toNat = 1048576 :=
    hacks.window _ hopened.scaleEnabled hlearned.sndScale
  have hmore : getScaledWin (learn opened timeUs thAck scale) seg.hdr >
      (learn opened timeUs thAck scale).sndWnd := by
    have hwnd : (learn opened timeUs thAck scale).sndWnd = 65535 := hkept.2
    rw [gt_iff_lt, BitVec.lt_def, hwindow, hwnd]
    decide
  have hacked := @handleAck_update (learn opened timeUs thAck scale) seg (.still 0)
    (hacks.acknowledged.trans hopened.sndUna.symm) hmore
  have hleft : Dripping 0 count 0 0 { learn opened timeUs thAck scale with
      sndWnd := getScaledWin (learn opened timeUs thAck scale) seg.hdr } :=
    hopened.learned timeUs scale _
  have hshut : getScaledWin (learn opened timeUs thAck scale) seg.hdr ≠ 0 := by
    intro hzero
    rw [hzero] at hwindow
    exact absurd hwindow (by decide)
  rw [← hoptions (.still 0)] at hacked
  have hrun := @run_completed seg e (.still 0) peer _ _ h.state hcompletes hinit hacked
  have hbare : ∀ tcb', handleData (.still 0) tcb' seg = utcpOutput (Env.still 0).output tcb' :=
    fun tcb' => if_pos hacks.empty
  rw [hoptions] at hrun
  have hstops := utcpOutput_stops (Env.still 0).output hleft.state hleft.tfAcknow
    (settled_unwritten hleft.tail hleft.state)
  rw [hbare, hstops] at hrun
  exact ⟨_, _, hrun, rfl, rfl, hleft, hkept.1, hshut, rfl⟩

/-- A sequence number in the upper half of the range is not above `iss`. -/
theorem seqOf_late (hlow : 2 ^ 31 ≤ pos + 1) (hhigh : pos + 1 ≤ 2 ^ 32) :
    seqGt (seqOf pos) 0 = false := by
  have hzero : seqOf pos - 0 = seqOf pos := BitVec.sub_zero _
  rw [seqGt, hzero, decide_eq_false_iff_not, toInt_pos_iff, seqOf, BitVec.toNat_ofNat]
  omega

/-- There the one byte that was written is never counted as sent. -/
theorem Dripping.buffered (h : Dripping 1 una 0 grown tcb) (hlate : seqGt (seqOf una) 0 = false) :
    outputBuffered tcb = 1 := by
  have hnxt : tcb.sndNxt = seqOf una := h.sndNxt
  rw [outputBuffered, hnxt, h.iss, hlate, h.tail, if_neg Bool.false_ne_true]
  decide

theorem Dripping.buffered_le (h : Dripping 1 una flight grown tcb) :
    (outputBuffered tcb).toNat ≤ 1 := by
  rw [outputBuffered, h.tail]
  generalize (if seqGt tcb.sndNxt tcb.iss then tcb.sndNxt - tcb.iss - 1 else 0) = sent
  split
  · rename_i hmore
    have hle : sent.toNat ≤ (1 : U32).toNat := Nat.le_of_lt hmore
    rw [toNat_sub_of_ge hle]
    exact Nat.sub_le _ _
  · exact Nat.zero_le _

theorem Dripping.flight_eq (h : Dripping len una flight grown tcb) :
    tcb.sndNxt - tcb.sndUna = BitVec.ofNat 32 flight := by
  rw [h.sndNxt, h.sndUna, ← seqOf_add, BitVec.add_comm]
  exact BitVec.add_sub_cancel _ _

theorem Dripping.outputLength_one (h : Dripping 1 una 0 grown tcb)
    (hlate : seqGt (seqOf una) 0 = false) (hgrown : grown < 2 ^ 31) (hopen : tcb.sndWnd ≠ 0) :
    outputLength tcb = 1 := by
  have hbuffered : (outputBuffered tcb).toNat = 1 := congrArg BitVec.toNat (h.buffered hlate)
  have hle := @outputLength_le_buffered tcb
  have hflight : (tcb.sndNxt - tcb.sndUna).toNat = 0 := congrArg BitVec.toNat h.flight_eq
  have hpos : outputLength tcb ≠ 0 := by
    intro hzero
    rcases (outputLength_zero_iff h.state).mp hzero with hfull | hempty | ⟨hsome, -⟩
    · have hwnd : 0 < tcb.sndWnd.toNat :=
        Nat.pos_of_ne_zero fun hnone => hopen (BitVec.eq_of_toNat_eq hnone)
      have hcwnd : tcb.cwnd.toNat = 4200 + grown := by
        rw [h.cwnd, BitVec.toNat_ofNat, Nat.mod_eq_of_lt (by omega)]
      rw [WindowFull, hflight, sendWindow_toNat] at hfull
      omega
    · rw [hempty] at hbuffered
      exact absurd hbuffered (by decide)
    · omega
  apply BitVec.eq_of_toNat_eq
  have hpos' : (outputLength tcb).toNat ≠ 0 := fun hnone => hpos (BitVec.eq_of_toNat_eq hnone)
  change _ = 1
  omega

theorem Dripping.outputLength_full (h : Dripping 1 una 1 grown tcb) : outputLength tcb = 0 := by
  have hbuffered := h.buffered_le
  have hmss := mss_toNat
  have hflight : (tcb.sndNxt - tcb.sndUna).toNat = 1 := congrArg BitVec.toNat h.flight_eq
  rw [outputLength_zero_iff h.state]
  by_cases hfull : WindowFull tcb
  · exact .inl hfull
  by_cases hnone : outputBuffered tcb = 0
  · exact .inr (.inl hnone)
  -- Nagle: the byte has to wait
  have hsome : 0 < (outputBuffered tcb).toNat :=
    Nat.pos_of_ne_zero fun hzero => hnone (BitVec.eq_of_toNat_eq hzero)
  rw [WindowFull] at hfull
  refine .inr (.inr ⟨by omega, ?_, ?_⟩)
  · rw [sendable]
    omega
  · rw [sendable]
    omega

theorem Dripping.advance (h : Dripping len una 0 grown tcb) :
    Dripping len una 1 grown (advanceSndNxt tcb 1 false) ∧
      (advanceSndNxt tcb 1 false).sndWnd = tcb.sndWnd := by
  obtain ⟨_, _, _, heq⟩ := advanceSndNxt_eq tcb 1 false
  have hnxt : tcb.sndNxt + (1 + if false then 1 else 0) = seqOf (una + 1) := by
    rw [h.sndNxt]
    exact seqOf_add una 1
  have hmax : nextSndMax tcb (1 + if false then 1 else 0) = seqOf (una + 1) :=
    nextSndMax_next h.sndNxt h.sndMax
  rw [heq]
  exact ⟨⟨h.state, h.iss, h.sndUna, hnxt, hmax, h.tail, h.rcvNxt, h.sndScale, h.scaleEnabled, h.ccOps,
    h.caState, h.ssthresh, h.cwnd, h.tfAcknow, h.tfDelack⟩, rfl⟩

theorem Dripping.sends (h : Dripping 1 una 0 grown tcb) (hlate : seqGt (seqOf una) 0 = false)
    (hgrown : grown < 2 ^ 31) (hopen : tcb.sndWnd ≠ 0) {readings : Nat → Reading}
    (halloc : (readings 0).alloc = true) :
    Dripping 1 una 1 grown (utcpOutput readings tcb).tcb ∧
      (utcpOutput readings tcb).tcb.sndWnd = tcb.sndWnd ∧
      ∃ byte, segments (utcpOutput readings tcb).log = [byte] ∧ Carries una byte := by
  obtain ⟨hadvanced, hwnd⟩ := h.advance
  obtain ⟨hleaves, hsends⟩ := utcpOutput_one h.state h.tfAcknow h.tfDelack halloc
    (h.outputLength_one hlate hgrown hopen) hadvanced.outputLength_full
  rw [hleaves]
  refine ⟨hadvanced, hwnd, _, hsends, h.sndNxt, h.rcvNxt, ?_, ?_⟩
  · exact payload_length_buildSegment _ _ _ _ 1 (by decide)
  · exact ⟨(readings 0).timeUs, _, fun env tcb' => processWindowOption_buildSegment ..⟩

theorem Dripping.grows (h : Dripping len una flight grown tcb) (hgrown : grown < 2 ^ 31) (env : Env)
    (rttUs : U32) :
    ∃ out, congControl env tcb (.ack 1 rttUs) = some out ∧
      Dripping len una flight (grown + 1) out.tcb ∧ out.tcb.sndWnd = tcb.sndWnd ∧ out.log = [] := by
  have hword : tcb.cwnd.toNat = 4200 + grown := by
    rw [h.cwnd, BitVec.toNat_ofNat, Nat.mod_eq_of_lt (by omega)]
  have hslow : tcb.cwnd < tcb.ssthresh := by
    rw [BitVec.lt_def, hword, h.ssthresh]
    change 4200 + grown < 4294967295
    omega
  have hcwnd : tcb.cwnd + 1 = BitVec.ofNat 32 (4200 + (grown + 1)) := by
    rw [h.cwnd, ← Nat.add_assoc, BitVec.ofNat_add _ 1]
    rfl
  refine ⟨_, newReno_grows env rttUs h.ccOps h.caState hslow, ?_, rfl, rfl⟩
  exact ⟨h.state, h.iss, h.sndUna, h.sndNxt, h.sndMax, h.tail, h.rcvNxt, h.sndScale, h.scaleEnabled,
    h.ccOps, rfl, h.ssthresh, hcwnd, h.tfAcknow, h.tfDelack⟩

theorem Dripping.acked (h : Dripping len una 1 grown tcb) (hgrown : grown < 2 ^ 31)
    (hack : seg.hdr.thAck = seqOf (una + 1)) (env : Env) :
    ∃ out, handleAck env tcb seg = some out ∧ Dripping len (una + 1) 0 (grown + 1) out.tcb ∧
      out.tcb.sndWnd = getScaledWin tcb seg.hdr ∧ segments out.log = [] := by
  have hvalid : validAck tcb seg.hdr.thAck = true := by
    rw [hack]
    exact validAck_next h.sndUna h.sndMax
  have hnewly : seg.hdr.thAck - tcb.sndUna = 1 := by
    rw [hack, h.sndUna]
    exact seqOf_succ_sub una
  have hnxt : (if seqGt seg.hdr.thAck tcb.sndNxt then seg.hdr.thAck else tcb.sndNxt) =
      seqOf (una + 1 + 0) := by
    rw [hack, h.sndNxt]
    exact ite_self _
  have hbefore : Dripping len (una + 1) 0 grown (beforeAckEvent env tcb seg).tcb ∧
      (beforeAckEvent env tcb seg).tcb.sndWnd = getScaledWin tcb seg.hdr := by
    obtain ⟨_, _, _, _, _, _, _, heq⟩ := beforeAckEvent_eq env tcb seg
    rw [heq]
    exact ⟨⟨h.state, h.iss, hack, hnxt, h.sndMax, h.tail, h.rcvNxt, h.sndScale, h.scaleEnabled, h.ccOps,
      h.caState, h.ssthresh, h.cwnd, h.tfAcknow, h.tfDelack⟩, rfl⟩
  obtain ⟨cc, hcc, hgrows, hkept, hlog⟩ :=
    hbefore.1.grows hgrown env (measureRtt env seg (acceptAck tcb seg.hdr)).2
  rw [handleAck, if_pos hvalid]
  simp only
  rw [hnewly, hcc]
  refine ⟨_, rfl, hgrows, hkept.trans hbefore.2, ?_⟩
  change segments ((beforeAckEvent env tcb seg).log ++ cc.log) = []
  rw [hlog, List.append_nil]
  exact rearmRexmt_segments ..

/-- The ACK of a byte brings out the next one, whether it was written or not. -/
theorem Dripping.answered {peer : Peer} (h : Dripping 1 una 1 grown e.tcb) (hgrown : grown + 1 < 2 ^ 31)
    (hlate : seqGt (seqOf (una + 1)) 0 = false) (hacks : Acks (una + 1) r seg)
    (hr : r + 32 ≤ recvBufSize.toNat) :
    ∃ e' log byte, e.run (.input (.still 0) seg peer) = some (e', log) ∧ e'.written = e.written ∧
      e'.pending = e.pending ∧ Dripping 1 (una + 1) 1 (grown + 1) e'.tcb ∧
      e'.tcb.sndWnd.toNat = (recvBufSize.toNat - r) / 32 * 32 ∧ segments log = [byte] ∧
      Carries (una + 1) byte := by
  obtain ⟨timeUs, scale, hoptions⟩ := hacks.options
  have hlearned : Dripping 1 una 1 grown (learn e.tcb timeUs thAck scale) :=
    h.learned timeUs scale e.tcb.sndWnd
  obtain ⟨out, hacked, hdone, hwnd, hsilent⟩ :=
    hlearned.acked (by omega) hacks.acknowledged (.still 0)
  have hwindow := hacks.window _ hlearned.scaleEnabled hlearned.sndScale
  rw [← hwnd] at hwindow
  have hopen : out.tcb.sndWnd ≠ 0 := by
    intro hshut
    rw [hshut] at hwindow
    change 0 = _ at hwindow
    omega
  obtain ⟨hnext, hkept, byte, hsent, hcarries⟩ :=
    @Dripping.sends _ _ _ hdone hlate hgrown hopen (Env.still 0).output rfl
  have hbare : handleData (.still 0) out.tcb seg = utcpOutput (Env.still 0).output out.tcb :=
    if_pos hacks.empty
  rw [← hoptions (.still 0)] at hacked
  have hrun := @run_received (.still 0) seg e peer out h.state hacked
  rw [hbare] at hrun
  refine ⟨_, _, byte, hrun, rfl, rfl, hnext, ?_, ?_, hcarries⟩
  · change (utcpOutput (Env.still 0).output out.tcb).tcb.sndWnd.toNat = _
    rw [hkept, hwindow]
  · rw [segments_append, hsilent, hsent]
    rfl

theorem Dripping.starts (h : Dripping 0 una 0 grown e.tcb) (hgrown : grown < 2 ^ 31)
    (hlate : seqGt (seqOf una) 0 = false) (hhead : e.tcb.sendBufHead = 0) (hopen : e.tcb.sndWnd ≠ 0)
    (hpending : e.pending = []) :
    ∃ e' log byte, e.run oneByte = some (e', log) ∧ e'.written = e.written ++ [0] ∧
      e'.pending = [] ∧ Dripping 1 una 1 grown e'.tcb ∧ segments log = [byte] ∧ Carries una byte := by
  have hroom : sendFreeSpace e.tcb = sendBufSize := by
    rw [sendFreeSpace, hhead, h.tail]
    rfl
  have hrun : e.run oneByte = some (e.sendSection (fun _ => .still 0) [0]) :=
    if_pos ⟨h.state, hpending⟩
  have hsection := utcpSend_one (fun _ => .still 0) 0 hroom
  have hwrote : Dripping 1 una 0 grown (writeChunk e.tcb [0]) := by
    have htail : e.tcb.sendBufTail + BitVec.ofNat 32 [(0 : U8)].length = 1 := by
      rw [h.tail]
      decide
    exact ⟨h.state, h.iss, h.sndUna, h.sndNxt, h.sndMax, htail, h.rcvNxt, h.sndScale, h.scaleEnabled,
      h.ccOps, h.caState, h.ssthresh, h.cwnd, h.tfAcknow, h.tfDelack⟩
  obtain ⟨hnext, -, byte, hsent, hcarries⟩ :=
    @Dripping.sends _ _ _ hwrote hlate hgrown hopen (Env.still 0).output rfl
  generalize utcpOutput (Env.still 0).output (writeChunk e.tcb [0]) = out at hsection hnext hsent
  generalize hresult : e.sendSection (fun _ => .still 0) [0] = result at hrun
  obtain ⟨e', log⟩ := result
  rw [Endpoint.sendSection, hsection] at hresult
  simp only [Endpoint.finish, Prod.mk.injEq, List.append_nil] at hresult
  obtain ⟨rfl, rfl⟩ := hresult
  exact ⟨_, _, byte, hrun, rfl, rfl, hnext, hsent, hcarries⟩

/-- The server sends byte after byte, and the client has received `r` and read none. The
numbers of the stream start behind `base`, and a copy of the SYN is still in flight. -/
structure Dripped (base r : Nat) (n : Net) : Prop where
  reached : Reachable network n
  unwritten : (n.endpoint .client).written = []
  unasked : (n.endpoint .client).pending = []
  written : (n.endpoint .server).written = [0]
  pending : (n.endpoint .server).pending = []
  client : Holding (base + r) r false (n.tcb .client)
  server : Dripping 1 (base + r) 1 r (n.tcb .server)
  window : 0 < r → (n.tcb .server).sndWnd.toNat = (recvBufSize.toNat - r) / 32 * 32
  syn : ∃ seg, n.inbox .server = [seg] ∧ FirstSyn seg
  byte : ∃ seg, n.inbox .client = [seg] ∧ Carries (base + r) seg

variable {base : Nat}

theorem Flooded.starts (h : Flooded base n) (hlow : 2 ^ 31 ≤ base + 1) (hhigh : base + 1 ≤ 2 ^ 32) :
    ∃ n', Dripped base 0 n' := by
  obtain ⟨syn, hsyns, hsyn⟩ := h.syn
  obtain ⟨synAck, hsynAcks, hsynAck⟩ := h.synAck
  obtain ⟨e₁, log₁, timeUs, hrun₁, hunwritten, hunasked, hclient₁, hacked⟩ :=
    @Waiting.takes _ _ _ (n.address .server) h.client hsynAck
  obtain ⟨n₁, hstep₁, hself₁, hother₁, hmail₁, hbytes₁⟩ :=
    @step_received _ _ _ _ n .client .server rfl _ hsynAcks hrun₁
  have hacks := hclient₁.acks (Nat.zero_le _) timeUs e₁.tcb.sndNxt
  rw [hsyns, hacked] at hbytes₁
  have hserver := h.server
  have hwritten := h.written
  have hpending := h.pending
  rw [Net.tcb, ← hother₁] at hserver
  rw [← hother₁] at hwritten hpending
  obtain ⟨e₂, log₂, hrun₂, hwritten₂, hpending₂, hserver₂, hhead, hopen, hsilent⟩ :=
    @Answering.opens _ _ _ (n₁.address .client) hserver hacks rfl
  have hsecond : (n₁.inbox .server)[1]? =
      some (buildSegment timeUs e₁.tcb e₁.tcb.sndNxt thAck 0) := by
    rw [hbytes₁]
    rfl
  obtain ⟨n₂, hstep₂, hself₂, hother₂, hbytes₂, hmail₂⟩ :=
    @step_delivered _ _ _ _ n₁ .server .client rfl 1 hsecond hrun₂
  rw [hbytes₁] at hbytes₂
  rw [hmail₁, hsilent] at hmail₂
  rw [← hself₂] at hwritten₂ hpending₂ hserver₂ hhead hopen
  obtain ⟨e₃, log₃, byte, hrun₃, hwritten₃, hpending₃, hserver₃, hsent, hcarries⟩ :=
    hserver₂.starts (by decide) (seqOf_late hlow hhigh) hhead hopen (hpending₂.trans hpending)
  obtain ⟨n₃, hstep₃, hself₃, hother₃, hbytes₃, hmail₃⟩ :=
    @step_ran _ _ _ n₂ rfl .server .client rfl hrun₃
  rw [hbytes₂] at hbytes₃
  rw [hmail₂, hsent] at hmail₃
  have hreached : Reachable network n₃ :=
    .step (.step (.step h.reached trivial hstep₁) trivial hstep₂) trivial hstep₃
  have hkept : n₃.endpoint .client = e₁ := hother₃.trans (hother₂.trans hself₁)
  subst hkept hself₃
  rw [hwritten₂, hwritten] at hwritten₃
  exact ⟨n₃, hreached, hunwritten, hunasked, hwritten₃, hpending₃, hclient₁, hserver₃,
    fun hnone => absurd hnone (Nat.lt_irrefl 0), ⟨syn, hbytes₃, hsyn⟩, byte, hmail₃, hcarries⟩

theorem Dripped.round (h : Dripped base r n) (hr : r + 33 ≤ recvBufSize.toNat)
    (hlow : 2 ^ 31 ≤ base + r + 2) (hhigh : base + r + 2 ≤ 2 ^ 32) : ∃ n', Dripped base (r + 1) n' := by
  have hsize : recvBufSize.toNat = 1048576 := rfl
  obtain ⟨syn, hsyns, hsyn⟩ := h.syn
  obtain ⟨byte, hbytes, hcarries⟩ := h.byte
  -- the network delivers the byte twice, so the client acknowledges without its timer
  obtain ⟨n₁, hstep₁, hends₁, hmail₁, hsyns₁⟩ := @step_duplicated _ n .client .server rfl hbytes
  rw [hsyns] at hsyns₁
  have hclient := h.client
  rw [Net.tcb, ← hends₁] at hclient
  obtain ⟨e₂, log₂, hrun₂, hwritten₂, hpending₂, hclient₂, hsilent₂⟩ :=
    @Holding.takes _ _ _ _ (n₁.address .server) hclient (by omega) hcarries (.still 0)
  obtain ⟨n₂, hstep₂, hself₂, hother₂, hmail₂, hbytes₂⟩ :=
    @step_received _ _ _ _ n₁ .client .server rfl _ hmail₁ hrun₂
  rw [hsyns₁, hsilent₂] at hbytes₂
  rw [← hself₂] at hclient₂ hwritten₂ hpending₂
  obtain ⟨e₃, log₃, timeUs, hrun₃, hwritten₃, hpending₃, hclient₃, hacked⟩ :=
    @Holding.repeats _ _ _ _ _ (n₂.address .server) hclient₂ hcarries (envAllocates_still 0)
  obtain ⟨n₃, hstep₃, hself₃, hother₃, hmail₃, hbytes₃⟩ :=
    @step_received _ _ _ _ n₂ .client .server rfl _ hmail₂ hrun₃
  rw [hbytes₂, hacked] at hbytes₃
  have hacks := hclient₃.acks (by omega) timeUs e₃.tcb.sndNxt
  have hends₃ : n₃.endpoint .server = n.endpoint .server := by
    rw [hother₃, hother₂, hends₁]
  have hserver := h.server
  have hwritten := h.written
  have hpending := h.pending
  rw [Net.tcb, ← hends₃] at hserver
  rw [← hends₃] at hwritten hpending
  obtain ⟨e₄, log₄, byte₄, hrun₄, hwritten₄, hpending₄, hserver₄, hwindow₄, hsent₄, hcarries₄⟩ :=
    @Dripping.answered _ _ _ _ _ (n₃.address .client) hserver (by omega)
      (seqOf_late (by omega) (by omega)) hacks (by omega)
  have hsecond : (n₃.inbox .server)[1]? =
      some (buildSegment timeUs e₃.tcb e₃.tcb.sndNxt thAck 0) := by
    rw [hbytes₃]
    rfl
  obtain ⟨n₄, hstep₄, hself₄, hother₄, hbytes₄, hmail₄⟩ :=
    @step_delivered _ _ _ _ n₃ .server .client rfl 1 hsecond hrun₄
  rw [hbytes₃] at hbytes₄
  rw [hmail₃, hsent₄] at hmail₄
  have hreached : Reachable network n₄ :=
    .step (.step (.step (.step h.reached trivial hstep₁) trivial hstep₂) trivial hstep₃) trivial hstep₄
  have hkept : n₄.endpoint .client = e₃ := hother₄.trans hself₃
  subst hkept hself₄
  refine ⟨n₄, hreached, ?_, ?_, hwritten₄.trans hwritten, hpending₄.trans hpending, hclient₃, hserver₄,
    fun _ => hwindow₄, ⟨syn, hbytes₄, hsyn⟩, byte₄, hmail₄, hcarries₄⟩
  · rw [hwritten₃, hwritten₂, hends₁]
    exact h.unwritten
  · rw [hpending₃, hpending₂, hends₁]
    exact h.unasked

theorem dripped (hlow : 2 ^ 31 ≤ base + 1) (r : Nat) (hr : r + 32 ≤ recvBufSize.toNat)
    (hhigh : base + r + 1 ≤ 2 ^ 32) : ∃ n, Dripped base r n := by
  induction r with
  | zero =>
      obtain ⟨n, hn⟩ := flooded base (by omega)
      exact hn.starts hlow hhigh
  | succ r ih =>
      obtain ⟨n, hn⟩ := ih (by omega) (by omega)
      exact hn.round (by omega) (by omega) (by omega)

/-- A segment that acknowledges nothing new and has a larger window. -/
theorem run_update {env : Env} {peer : Peer} (hstate : e.tcb.state = .established)
    (hempty : payload seg = []) (hack : seg.hdr.thAck = e.tcb.sndUna)
    (hmore : getScaledWin (processWindowOption env seg e.tcb) seg.hdr > e.tcb.sndWnd) :
    ∃ e' log, e.run (.input env seg peer) = some (e', log) ∧ e'.written = e.written ∧
      e'.pending = e.pending ∧ e'.tcb.state = .established ∧ e'.tcb.sndUna = e.tcb.sndUna ∧
      e'.tcb.sndWnd = getScaledWin (processWindowOption env seg e.tcb) seg.hdr := by
  obtain ⟨_, _, _, _, heq⟩ := processWindowOption_eq env seg e.tcb
  have hlearned : (processWindowOption env seg e.tcb).state = .established ∧
      (processWindowOption env seg e.tcb).sndUna = e.tcb.sndUna ∧
      (processWindowOption env seg e.tcb).sndWnd = e.tcb.sndWnd := by
    rw [heq]
    exact ⟨hstate, rfl, rfl⟩
  obtain ⟨hstate', huna, hwnd⟩ := hlearned
  have hacked := @handleAck_update (processWindowOption env seg e.tcb) seg env
    (hack.trans huna.symm) (by rw [hwnd]; exact hmore)
  have hrun := @run_received env seg e peer _ hstate hacked
  generalize processWindowOption env seg e.tcb = learned at hstate' huna hrun ⊢
  have hdata : handleData env { learned with sndWnd := getScaledWin learned seg.hdr } seg =
      utcpOutput env.output { learned with sndWnd := getScaledWin learned seg.hdr } := if_pos hempty
  have hkept : ∀ updated : Tcb, (utcpOutput env.output updated).tcb.state = updated.state ∧
      (utcpOutput env.output updated).tcb.sndUna = updated.sndUna ∧
      (utcpOutput env.output updated).tcb.sndWnd = updated.sndWnd := by
    intro updated
    obtain ⟨_, _, _, _, _, _, _, hout⟩ := outputTrace_eq (utcpOutput_trace env.output updated)
    rw [hout]
    exact ⟨rfl, rfl, rfl⟩
  obtain ⟨hstate'', huna'', hwnd''⟩ :=
    hkept { learned with sndWnd := getScaledWin learned seg.hdr }
  rw [hdata] at hrun
  exact ⟨_, _, hrun, rfl, rfl, hstate''.trans hstate', huna''.trans huna, hwnd''⟩

/-- Once the sequence numbers have gone round, the SYN is taken for a window update. -/
theorem window_beyond_edge :
    ¬ ∀ n, Reachable network n → (∀ x, (n.endpoint x).handed.length < 2 ^ 31 - 1) →
      (∀ x, (n.tcb x).state = .established) → ∀ x, WithinEdge n x := by
  intro hclaim
  have hsize : recvBufSize.toNat = 1048576 := rfl
  obtain ⟨r, hr⟩ : ∃ r, r + 65534 = recvBufSize.toNat := ⟨983042, rfl⟩
  obtain ⟨base, hbase⟩ : ∃ base, base + r + 1 = 2 ^ 32 := ⟨2 ^ 32 - 1 - r, by omega⟩
  obtain ⟨n, hn⟩ := @dripped base (by omega) r (by omega) (by omega)
  obtain ⟨syn, hsyns, hsyn⟩ := hn.syn
  have hwrapped : seqOf (base + r) = 0 := by
    rw [seqOf, hbase]
    decide
  have huna : (n.tcb .server).sndUna = 0 := hn.server.sndUna.trans hwrapped
  have hmore : getScaledWin (processWindowOption (.still 0) syn (n.tcb .server)) syn.hdr >
      (n.tcb .server).sndWnd := by
    rw [hsyn.window_eq, gt_iff_lt, BitVec.lt_def, hn.window (by omega)]
    change _ < 65535
    omega
  obtain ⟨e', log, hrun, hwritten, hpending, hstate, huna', hwnd⟩ :=
    @run_update _ _ (.still 0) (n.address .client) hn.server.state hsyn.empty
      (hsyn.acknowledged.trans huna.symm) hmore
  rw [hsyn.window_eq] at hwnd
  obtain ⟨n', hstep, hself, hother, -, -⟩ := @step_received _ _ _ _ n .server .client rfl _ hsyns hrun
  subst hself
  have hstates : ∀ x, (n'.tcb x).state = .established := by
    intro x
    cases x with
    | client =>
        rw [Net.tcb, hother]
        exact hn.client.state
    | server => exact hstate
  have hgiven : ∀ x, (n'.endpoint x).handed.length < 2 ^ 31 - 1 := by
    intro x
    cases x with
    | client =>
        rw [hother, Endpoint.handed, hn.unwritten, hn.unasked]
        decide
    | server =>
        rw [Endpoint.handed, hwritten, hpending, hn.written, hn.pending]
        decide
  have hwithin := hclaim n' (.step hn.reached trivial hstep) hgiven hstates .server
  have hedge : rightEdge (n'.tcb .client) = 65534 := by
    have hused : (BitVec.ofNat 32 r).toNat = r := by
      rw [BitVec.toNat_ofNat, Nat.mod_eq_of_lt (by omega)]
    have hzero : (0 : U32) + recvBufSize = recvBufSize := BitVec.zero_add _
    rw [Net.tcb, hother, rightEdge, hn.client.rcvNxt, hn.client.used, hwrapped, hzero]
    apply BitVec.eq_of_toNat_eq
    rw [toNat_sub_of_ge (by omega), hused]
    change _ = 65534
    omega
  change seqLeq ((n'.tcb .server).sndUna + (n'.tcb .server).sndWnd) (rightEdge (n'.tcb .client)) = true
    at hwithin
  rw [huna', huna, hwnd, hedge] at hwithin
  exact absurd hwithin (by decide)

end Utcp.Floods
