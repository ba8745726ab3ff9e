import Utcp.Buffers
import Utcp.Frames
import Utcp.Wire
import Utcp.Library.SerialNumbers

/-!
One call of `utcp_output` in `TCP_ESTABLISHED`, whatever the values of the
control block.
-/

namespace Utcp.SendLoop

open SerialNumbers
open Traces
open Utcp.Tcp
open Utcp.Utils
open Utcp.Output
open Utcp.Input
open Utcp.Api
open Utcp.Steps
open Utcp.Sections
open Utcp.Frames
open Utcp.Wire
open Utcp.Buffers

variable {tcb tcb' : Tcb} {log : List Event}

/-- What `utcp_output` leaves alone. -/
structure SameWindow (tcb tcb' : Tcb) : Prop where
  state : tcb'.state = tcb.state
  sndUna : tcb'.sndUna = tcb.sndUna
  sndWnd : tcb'.sndWnd = tcb.sndWnd
  cwnd : tcb'.cwnd = tcb.cwnd
  ssthresh : tcb'.ssthresh = tcb.ssthresh
  iss : tcb'.iss = tcb.iss
  sendBuf : tcb'.sendBuf = tcb.sendBuf
  sendBufHead : tcb'.sendBufHead = tcb.sendBufHead
  sendBufTail : tcb'.sendBufTail = tcb.sendBufTail
  receive : SameReceive tcb tcb'

@[refl] theorem SameWindow.refl (tcb : Tcb) : SameWindow tcb tcb :=
  ⟨rfl, rfl, rfl, rfl, rfl, rfl, rfl, rfl, rfl, .refl tcb⟩

theorem SameWindow.trans {a b c : Tcb} (hab : SameWindow a b) (hbc : SameWindow b c) :
    SameWindow a c :=
  ⟨hbc.state.trans hab.state, hbc.sndUna.trans hab.sndUna, hbc.sndWnd.trans hab.sndWnd,
    hbc.cwnd.trans hab.cwnd, hbc.ssthresh.trans hab.ssthresh, hbc.iss.trans hab.iss,
    hbc.sendBuf.trans hab.sendBuf, hbc.sendBufHead.trans hab.sendBufHead,
    hbc.sendBufTail.trans hab.sendBufTail, hab.receive.trans hbc.receive⟩

theorem outputStep_sameWindow (h : OutputStep tcb log tcb') : SameWindow tcb tcb' := by
  have hreceive := outputStep_sameReceive h
  cases h with
  | advance timeUs newSynFin hsyn hadvance =>
      obtain ⟨_, _, _, heq⟩ := advanceSndNxt_eq tcb (outputLength tcb) newSynFin
      rw [heq] at hreceive ⊢
      exact ⟨rfl, rfl, rfl, rfl, rfl, rfl, rfl, rfl, rfl, hreceive⟩
  | _ => exact ⟨rfl, rfl, rfl, rfl, rfl, rfl, rfl, rfl, rfl, hreceive⟩

theorem outputTrace_sameWindow (h : Trace OutputStep tcb log tcb') : SameWindow tcb tcb' := by
  induction h with
  | nil tcb => exact .refl tcb
  | cons hstep _ ih => exact (outputStep_sameWindow hstep).trans ih

/-- A data segment `utcp_output` may send in this state. -/
structure MayCarry (tcb : Tcb) (seg : TcpSegment) : Prop where
  seq : seg.hdr.thSeq = tcb.sndNxt
  positive : 0 < (payload seg).length
  short : (payload seg).length ≤ mss.toNat
  window : (tcb.sndNxt + BitVec.ofNat 32 (payload seg).length - tcb.sndUna).toNat ≤
    min tcb.sndWnd.toNat tcb.cwnd.toNat
  nagle : (payload seg).length < mss.toNat → tcb.sndNxt = tcb.sndUna

/-- The steps of `utcp_output` in `TCP_ESTABLISHED`. -/
inductive SendStep : Tcb → List Event → Tcb → Prop
  | flags (tcb : Tcb) (tfAcknow tfDelack : Bool) : SendStep tcb [] { tcb with tfAcknow, tfDelack }
  | delack (tcb : Tcb) (ticks : U16) : SendStep tcb [] (setTimer tcb .delack ticks)
  | empty (tcb : Tcb) (timeUs : U64) (seg : TcpSegment) (hempty : payload seg = []) :
      SendStep tcb [.freeSpace (bufUsed tcb) tcb.oooBytes, .sent .output timeUs seg] tcb
  | data (tcb : Tcb) (timeUs : U64) (seg : TcpSegment) (hcarry : MayCarry tcb seg) :
      SendStep tcb [.freeSpace (bufUsed tcb) tcb.oooBytes, .sent .output timeUs seg]
        (advanceSndNxt tcb (BitVec.ofNat 32 (payload seg).length) false)

/-- The loop of `utcp_output` without a bound on its turns. -/
inductive LoopRuns (readings : Nat → Reading) (flags : U8) : Nat → Bool → Tcb → Out → Prop
  | stop {turn : Nat} {forceSend : Bool} {tcb : Tcb} {out : Out}
      (h : outputTurn (readings turn) flags forceSend tcb = (out, false)) :
      LoopRuns readings flags turn forceSend tcb out
  | again {turn : Nat} {forceSend : Bool} {tcb : Tcb} {out rest : Out}
      (h : outputTurn (readings turn) flags forceSend tcb = (out, true))
      (hrest : LoopRuns readings flags (turn + 1) false out.tcb rest) :
      LoopRuns readings flags turn forceSend tcb ⟨rest.tcb, out.log ++ rest.log⟩

theorem sendWindow_toNat (tcb : Tcb) :
    (sendWindow tcb).toNat = min tcb.sndWnd.toNat tcb.cwnd.toNat := by
  unfold sendWindow
  split
  · rename_i hlt
    have hlt' : tcb.sndWnd.toNat < tcb.cwnd.toNat := hlt
    omega
  · rename_i hlt
    have hlt' : ¬ tcb.sndWnd.toNat < tcb.cwnd.toNat := hlt
    omega

theorem SameWindow.sendWindow (h : SameWindow tcb tcb') :
    sendWindow tcb' = sendWindow tcb := by
  rw [Output.sendWindow, Output.sendWindow, h.sndWnd, h.cwnd]

theorem smaller_toNat (a b : U32) : (if a < b then a else b).toNat = min a.toNat b.toNat := by
  split
  · rename_i hlt
    have hlt' : a.toNat < b.toNat := hlt
    omega
  · rename_i hlt
    have hlt' : ¬ a.toNat < b.toNat := hlt
    omega

theorem outputLength_bounds (hpos : 0 < (outputLength tcb).toNat) :
    (tcb.sndNxt - tcb.sndUna).toNat + (outputLength tcb).toNat ≤ (sendWindow tcb).toNat ∧
      (outputLength tcb).toNat ≤ mss.toNat ∧
      ((outputLength tcb).toNat < mss.toNat → tcb.sndNxt = tcb.sndUna) := by
  have hcases : ∀ buffered canSend flight : U32,
      let clipped := if buffered < canSend then buffered else canSend
      let dataLength := if clipped > mss then mss else clipped
      let chosen := if dataLength > 0 ∧ dataLength < mss ∧ flight > 0 then 0 else dataLength
      0 < chosen.toNat → chosen.toNat ≤ canSend.toNat ∧ chosen.toNat ≤ mss.toNat ∧
        (chosen.toNat < mss.toNat → flight.toNat = 0) := by
    intro buffered canSend flight clipped dataLength chosen hchosen
    have hclipped : clipped.toNat = min buffered.toNat canSend.toNat := smaller_toNat ..
    have hdata : dataLength.toNat = min mss.toNat clipped.toNat := smaller_toNat ..
    by_cases hnagle : dataLength > 0 ∧ dataLength < mss ∧ flight > 0
    · rw [show chosen = 0 from if_pos hnagle] at hchosen
      exact absurd hchosen (by decide)
    · have heq : chosen = dataLength := if_neg hnagle
      rw [heq] at hchosen ⊢
      refine ⟨by omega, by omega, fun hshort => ?_⟩
      by_contra hflight
      exact hnagle ⟨hchosen, hshort, Nat.pos_of_ne_zero hflight⟩
  unfold outputLength at hpos ⊢
  split at hpos
  · rename_i hstate
    rw [if_pos hstate]
    dsimp only at hpos ⊢
    split at hpos
    · rename_i hroom
      rw [if_pos hroom]
      have hroom' : (tcb.sndNxt - tcb.sndUna).toNat < (sendWindow tcb).toNat := hroom
      obtain ⟨hwindow, hmss, hnagle⟩ := hcases _ _ _ hpos
      rw [toNat_sub_of_ge (Nat.le_of_lt hroom')] at hwindow
      exact ⟨by omega, hmss, fun hshort => eq_of_toNat_sub_eq_zero (hnagle hshort)⟩
    · exact absurd hpos (by decide)
  · exact absurd hpos (by decide)

theorem payload_length_buildSegment (timeUs : U64) (tcb : Tcb) (seq : U32) (flags : U8)
    (dataLength : U32) (hshort : dataLength.toNat ≤ mss.toNat) :
    (payload (buildSegment timeUs tcb seq flags dataLength)).length = dataLength.toNat := by
  have hmss := mss_toNat
  have hsize := sendBufSize_toNat
  rw [payload_buildSegment]
  exact ringBufRead_length (by omega)

theorem mayCarry_buildSegment (timeUs : U64) (flags : U8) (hpos : 0 < (outputLength tcb).toNat) :
    MayCarry tcb (buildSegment timeUs tcb tcb.sndNxt flags (outputLength tcb)) := by
  obtain ⟨hwindow, hshort, hnagle⟩ := outputLength_bounds hpos
  have hlen := payload_length_buildSegment timeUs tcb tcb.sndNxt flags _ hshort
  have hword := (sendWindow tcb).isLt
  refine ⟨rfl, by omega, by omega, ?_, fun h => hnagle (by omega)⟩
  rw [hlen, BitVec.ofNat_toNat, BitVec.setWidth_eq, ← sendWindow_toNat]
  rw [toNat_add_sub_base (by omega)]
  exact hwindow

theorem noSynFin_established (hstate : tcb.state = .established) :
    sendingNewSynFin (tcpOutflags tcb.state) tcb = false := by
  rw [hstate, sendingNewSynFin]
  rfl

theorem sendStep_of_outputStep (hstate : tcb.state = .established)
    (h : OutputStep tcb log tcb') : SendStep tcb log tcb' := by
  cases h with
  | flags tfAcknow tfDelack => exact .flags tcb tfAcknow tfDelack
  | delack ticks => exact .delack tcb ticks
  | bare timeUs hlen hsyn =>
      refine .empty tcb timeUs _ ?_
      exact List.eq_nil_of_length_eq_zero (payload_length_buildSegment _ _ _ _ 0 (by decide))
  | advance timeUs newSynFin hsyn hadvance =>
      obtain rfl : newSynFin = false := hsyn.symm.trans (noSynFin_established hstate)
      have hpos : 0 < (outputLength tcb).toNat := by
        rcases hadvance with hlen | hfalse
        · exact hlen
        · cases hfalse
      have hshort := (outputLength_bounds hpos).2.1
      have hstep := SendStep.data tcb timeUs _
        (mayCarry_buildSegment timeUs (tcpOutflags tcb.state) hpos)
      rw [payload_length_buildSegment _ _ _ _ _ hshort, BitVec.ofNat_toNat,
        BitVec.setWidth_eq] at hstep
      exact hstep

theorem sendTrace_of_outputTrace (hstate : tcb.state = .established)
    (h : Trace OutputStep tcb log tcb') : Trace SendStep tcb log tcb' := by
  induction h with
  | nil tcb => exact .nil tcb
  | cons hstep _ ih =>
      exact .cons (sendStep_of_outputStep hstate hstep)
        (ih ((outputStep_state hstep).trans hstate))

theorem cancelDelack_sndNxt (tcb : Tcb) : (cancelDelack tcb).sndNxt = tcb.sndNxt := by
  unfold cancelDelack
  split <;> rfl

theorem utcpSendSegment_segments {origin : Origin} {reading : Reading} {seq : U32} {flags : U8}
    {dataLength : U32} (h : utcpSendSegment origin reading tcb seq flags dataLength = some log) :
    reading.alloc = true ∧
      segments log = [buildSegment reading.timeUs tcb seq flags dataLength] := by
  unfold utcpSendSegment at h
  split at h
  · rename_i halloc
    cases h
    exact ⟨halloc, rfl⟩
  · cases h

theorem utcpSendSegment_none {origin : Origin} {reading : Reading} {seq : U32} {flags : U8}
    {dataLength : U32} (h : utcpSendSegment origin reading tcb seq flags dataLength = none) :
    reading.alloc = false := by
  unfold utcpSendSegment at h
  split at h
  · cases h
  · rename_i halloc
    exact Bool.eq_false_iff.mpr halloc

/-- The three ways a turn ends in `TCP_ESTABLISHED`: without a segment, with the
empty one that was asked for, and with data, after which the loop goes on. -/
inductive TurnEnd (reading : Reading) (forceSend : Bool) (tcb : Tcb) (out : Out) : Bool → Prop
  | silent (hcause : outputLength tcb = 0 ∨ reading.alloc = false) (hlog : out.log = []) :
      TurnEnd reading forceSend tcb out false
  | empty (hforce : forceSend = true) (hzero : outputLength tcb = 0) (seg : TcpSegment)
      (hlog : segments out.log = [seg]) : TurnEnd reading forceSend tcb out false
  | data (halloc : reading.alloc = true) (hpos : 0 < (outputLength tcb).toNat) (seg : TcpSegment)
      (hlog : segments out.log = [seg]) (hseq : seg.hdr.thSeq = tcb.sndNxt)
      (hpayload : payload seg ≠ []) (hnxt : out.tcb.sndNxt = tcb.sndNxt + outputLength tcb) :
      TurnEnd reading forceSend tcb out true

theorem outputTurn_end (reading : Reading) (forceSend : Bool) (hstate : tcb.state = .established) :
    TurnEnd reading forceSend tcb (outputTurn reading (tcpOutflags tcb.state) forceSend tcb).1
      (outputTurn reading (tcpOutflags tcb.state) forceSend tcb).2 := by
  have hsyn := noSynFin_established hstate
  simp only [outputTurn]
  rw [hsyn]
  split
  · rename_i hquiet
    exact .silent (.inl hquiet.1) rfl
  · rename_i hsends
    split
    · rename_i hnone
      exact .silent (.inr (utcpSendSegment_none hnone)) rfl
    · rename_i log hlog
      obtain ⟨halloc, hsegments⟩ := utcpSendSegment_segments hlog
      by_cases hzero : outputLength tcb = 0
      · have hforce : forceSend = true := by
          by_contra hforce
          exact hsends ⟨hzero, rfl, by simpa using hforce⟩
        rw [show decide (outputLength tcb ≠ 0) = false from decide_eq_false (not_not.mpr hzero)]
        exact .empty hforce hzero _ hsegments
      · have hpos : 0 < (outputLength tcb).toNat :=
          Nat.pos_of_ne_zero fun h => hzero (BitVec.eq_of_toNat_eq h)
        have hgt : outputLength tcb > 0 := hpos
        rw [if_pos (.inl hgt), show decide (outputLength tcb ≠ 0) = true from decide_eq_true hzero]
        refine .data halloc hpos _ hsegments (cancelDelack_sndNxt tcb) ?_ ?_
        · apply List.ne_nil_of_length_pos
          rw [payload_length_buildSegment _ _ _ _ _ (outputLength_bounds hpos).2.1]
          exact hpos
        · obtain ⟨_, _, _, heq⟩ := advanceSndNxt_eq (cancelDelack tcb) (outputLength tcb) false
          rw [heq]
          dsimp only
          rw [cancelDelack_sndNxt, if_neg (by decide)]
          exact congrArg (tcb.sndNxt + ·) (BitVec.add_zero _)

theorem outputTurn_sameWindow (reading : Reading) (forceSend : Bool) (tcb : Tcb) :
    SameWindow tcb (outputTurn reading (tcpOutflags tcb.state) forceSend tcb).1.tcb :=
  outputTrace_sameWindow (outputTurn_trace ..)

/-- The loop ends before the fuel does: a turn that goes on uses up window. -/
theorem outputLoop_runs (readings : Nat → Reading) (fuel : Nat) :
    ∀ (turn : Nat) (forceSend : Bool) (tcb : Tcb), tcb.state = .established →
      (sendWindow tcb).toNat - (tcb.sndNxt - tcb.sndUna).toNat < fuel →
      LoopRuns readings (tcpOutflags .established) turn forceSend tcb
        (outputLoop readings (tcpOutflags .established) fuel turn forceSend tcb) := by
  induction fuel with
  | zero =>
      intro turn forceSend tcb hstate hfuel
      omega
  | succ fuel ih =>
      intro turn forceSend tcb hstate hfuel
      have hsame := outputTurn_sameWindow (readings turn) forceSend tcb
      have hend := outputTurn_end (readings turn) forceSend hstate
      rw [hstate] at hsame hend
      rw [outputLoop]
      generalize hturn : outputTurn (readings turn) (tcpOutflags .established) forceSend tcb =
        result at hsame hend
      obtain ⟨out, more⟩ := result
      cases hend with
      | silent => exact .stop hturn
      | empty => exact .stop hturn
      | data halloc hpos seg hlog hseq hpayload hnxt =>
          have hwindow := (outputLength_bounds hpos).1
          have hword := (sendWindow tcb).isLt
          refine .again hturn (ih (turn + 1) false out.tcb (hsame.state.trans hstate) ?_)
          rw [hsame.sendWindow, hsame.sndUna, hnxt, toNat_add_sub_base (by omega)]
          omega

theorem utcpOutput_runs (readings : Nat → Reading) (hstate : tcb.state = .established) :
    LoopRuns readings thAck 0 tcb.tfAcknow { tcb with tfAcknow := false }
      (utcpOutput readings tcb) := by
  have hruns := outputLoop_runs readings ((sendWindow tcb).toNat + 2) 0 tcb.tfAcknow
    { tcb with tfAcknow := false } hstate
    (show (sendWindow tcb).toNat - (tcb.sndNxt - tcb.sndUna).toNat < _ by omega)
  have hflags : tcpOutflags tcb.state = tcpOutflags .established := congrArg tcpOutflags hstate
  simp only [utcpOutput]
  rw [hflags]
  exact hruns

/-- How many segments without payload were sent. -/
def emptySegments (log : List Event) : Nat :=
  (segments log).countP fun seg => payload seg = []

theorem emptySegments_append (log log' : List Event) :
    emptySegments (log ++ log') = emptySegments log + emptySegments log' := by
  rw [emptySegments, segments_append, List.countP_append]
  rfl

theorem emptySegments_single {seg : TcpSegment} (h : segments log = [seg]) :
    emptySegments log = if payload seg = [] then 1 else 0 := by
  rw [emptySegments, h, List.countP_singleton]
  simp only [decide_eq_true_eq]

theorem emptySegments_loopRuns {readings : Nat → Reading} {turn : Nat} {forceSend : Bool}
    {out : Out} (hstate : tcb.state = .established)
    (h : LoopRuns readings (tcpOutflags .established) turn forceSend tcb out) :
    emptySegments out.log ≤ forceSend.toNat := by
  induction h with
  | @stop turn forceSend tcb out hturn =>
      have hend := outputTurn_end (readings turn) forceSend hstate
      rw [hstate, hturn] at hend
      cases hend with
      | silent hcause hlog =>
          rw [hlog]
          exact Nat.zero_le _
      | empty hforce hzero seg hlog =>
          rw [emptySegments_single hlog, hforce]
          split
          · exact Nat.le_refl 1
          · exact Nat.zero_le 1
  | @again turn forceSend tcb out rest hturn _ ih =>
      have hsame := outputTurn_sameWindow (readings turn) forceSend tcb
      have hend := outputTurn_end (readings turn) forceSend hstate
      rw [hstate, hturn] at hsame hend
      cases hend with
      | data halloc hpos seg hlog hseq hpayload hnxt =>
          have hrest := ih (hsame.state.trans hstate)
          rw [emptySegments_append, emptySegments_single hlog, if_neg hpayload, Nat.zero_add]
          exact hrest.trans (Nat.zero_le _)

/-- One call of `utcp_output` in `TCP_ESTABLISHED` terminates, sends data within
the window, and an empty segment only where an ACK was asked for. -/
theorem utcpOutput_law (readings : Nat → Reading) (tcb : Tcb) (hstate : tcb.state = .established) :
    let out := utcpOutput readings tcb
    LoopRuns readings thAck 0 tcb.tfAcknow { tcb with tfAcknow := false } out ∧
      Trace SendStep tcb out.log out.tcb ∧
      emptySegments out.log ≤ tcb.tfAcknow.toNat ∧
      SameWindow tcb out.tcb := by
  intro out
  have hruns : LoopRuns readings thAck 0 tcb.tfAcknow { tcb with tfAcknow := false } out :=
    utcpOutput_runs readings hstate
  have htrace : Trace OutputStep tcb out.log out.tcb := utcpOutput_trace readings tcb
  have hempty : emptySegments out.log ≤ tcb.tfAcknow.toNat :=
    @emptySegments_loopRuns { tcb with tfAcknow := false } _ _ _ _ hstate hruns
  exact ⟨hruns, sendTrace_of_outputTrace hstate htrace, hempty, outputTrace_sameWindow htrace⟩

/-- Two bytes written and an ACK asked for: one segment with both. -/
theorem utcpOutput_law_piggyback :
    let tcb := setAcknow
      { writeChunk utcpSocket [7, 8] with
        state := .established, sndNxt := 1, sndUna := 1, sndWnd := 9, cwnd := 1400 }
    let out := utcpOutput (fun _ => ⟨5, true⟩) tcb
    emptySegments out.log ≤ 1 ∧ SameWindow tcb out.tcb ∧
      (segments out.log).map payload = [[7, 8]] := by
  refine ⟨(utcpOutput_law _ _ rfl).2.2.1, (utcpOutput_law _ _ rfl).2.2.2, ?_⟩
  decide +kernel

end Utcp.SendLoop
