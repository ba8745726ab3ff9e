import Utcp.Library.SerialNumbers
import Utcp.SectionCases
import Utcp.SendLoop

/-!
The tick-based samples of the round trip: how often the byte at `t_rtseq` was
transmitted by the time its acknowledgment is used as a sample.
-/

namespace Utcp.Karn

open Traces
open SerialNumbers
open TransitionSystems
open Utcp.Tcp
open Utcp.Utils
open Utcp.Output
open Utcp.CongestionControl
open Utcp.Timers
open Utcp.Input
open Utcp.Api
open Utcp.Steps
open Utcp.Sections
open Utcp.SendLoop
open Utcp.SectionCases

variable {env : Env} {tcb tcb' : Tcb} {seg : TcpSegment} {log : List Event}

/-- The payload of a segment holds the byte with a sequence number. -/
def covers (q : U32) (seg : TcpSegment) : Bool :=
  (q - seg.hdr.thSeq).toNat < (payload seg).length

/-- How often a byte was transmitted. -/
def transmissions (log : List Event) (q : U32) : Nat := (segments log).countP (covers q)

/-- One past the last sequence number of a segment, as a number. -/
def endOf (seg : TcpSegment) : Nat :=
  seg.hdr.thSeq.toNat + (payload seg).length +
    if hasFlag seg.hdr.thFlags (thSyn ||| thFin) then 1 else 0

/-- Fewer than 2^31 - 1 bytes behind the SYN were put on the wire. -/
def Short (log : List Event) : Prop := ∀ seg ∈ segments log, endOf seg < 2 ^ 31

theorem transmissions_append (log log' : List Event) (q : U32) :
    transmissions (log ++ log') q = transmissions log q + transmissions log' q := by
  rw [transmissions, segments_append, List.countP_append]
  rfl

theorem Short.front {log log' : List Event} (h : Short (log ++ log')) : Short log := by
  intro seg hseg
  apply h seg
  rw [segments_append]
  exact List.mem_append_left _ hseg

theorem Short.back {log log' : List Event} (h : Short (log ++ log')) : Short log' := by
  intro seg hseg
  apply h seg
  rw [segments_append]
  exact List.mem_append_right _ hseg

/-- Only bytes below `snd_max` were transmitted, and the one that is being timed
once; it lies below `snd_nxt`, so that `utcp_output` does not come back to it. -/
structure Timed (tcb : Tcb) (log : List Event) : Prop where
  acked : tcb.sndUna.toNat ≤ tcb.sndNxt.toNat
  sent : tcb.sndNxt.toNat ≤ tcb.sndMax.toNat
  small : tcb.sndMax.toNat < 2 ^ 31
  below : ∀ seg ∈ segments log, payload seg = [] ∨
    seg.hdr.thSeq.toNat + (payload seg).length ≤ tcb.sndMax.toNat
  timed : tcb.tRtt ≠ 0 →
    tcb.tRtseq.toNat < tcb.sndNxt.toNat ∧ transmissions log tcb.tRtseq = 1
  idle : tcb.state ≠ .established → tcb.tRtt = 0 ∧ tcb.sendBufTail = 0

/-- Code that keeps this, while few bytes are on the wire. -/
def Keeps (tcb : Tcb) (log : List Event) (tcb' : Tcb) : Prop :=
  ∀ sofar, Short (sofar ++ log) → Timed tcb sofar → Timed tcb' (sofar ++ log)

theorem keeps_composes : Composes Keeps where
  nil := by
    intro tcb sofar _ h
    rwa [List.append_nil]
  append := by
    intro a b c log log' hab hbc sofar hshort h
    rw [← List.append_assoc] at hshort ⊢
    exact hbc _ hshort (hab sofar hshort.front h)

/-- Blocks that agree on what a timing depends on. -/
structure SameTiming (tcb tcb' : Tcb) : Prop where
  state : tcb'.state = tcb.state
  sndUna : tcb'.sndUna = tcb.sndUna
  sndNxt : tcb'.sndNxt = tcb.sndNxt
  sndMax : tcb'.sndMax = tcb.sndMax
  tRtseq : tcb'.tRtseq = tcb.tRtseq
  sendBufTail : tcb'.sendBufTail = tcb.sendBufTail
  tRtt : tcb'.tRtt = 0 ∨ tcb.tRtt ≠ 0

theorem keeps_of_same (hlog : ∀ seg ∈ segments log, payload seg = [])
    (h : SameTiming tcb tcb') : Keeps tcb log tcb' := by
  intro sofar _ ht
  have hnone : transmissions log tcb.tRtseq = 0 := by
    rw [transmissions, List.countP_eq_zero]
    intro seg hseg
    simp [covers, hlog seg hseg]
  refine ⟨?_, ?_, ?_, ?_, ?_, ?_⟩
  · rw [h.sndUna, h.sndNxt]
    exact ht.acked
  · rw [h.sndNxt, h.sndMax]
    exact ht.sent
  · rw [h.sndMax]
    exact ht.small
  · rw [segments_append, h.sndMax]
    intro seg hseg
    rcases List.mem_append.mp hseg with hseg | hseg
    · exact ht.below seg hseg
    · exact .inl (hlog seg hseg)
  · intro htiming
    rw [h.tRtseq, h.sndNxt, transmissions_append, hnone, Nat.add_zero]
    exact ht.timed (h.tRtt.resolve_left htiming)
  · rw [h.state, h.sendBufTail]
    intro hstate
    obtain ⟨hidle, htail⟩ := ht.idle hstate
    exact ⟨h.tRtt.resolve_right (not_not_intro hidle), htail⟩

theorem SameTiming.refl (tcb : Tcb) : SameTiming tcb tcb :=
  ⟨rfl, rfl, rfl, rfl, rfl, rfl, Decidable.em _⟩

theorem SameTiming.setAcknow (h : SameTiming tcb tcb') : SameTiming tcb (setAcknow tcb') :=
  ⟨h.state, h.sndUna, h.sndNxt, h.sndMax, h.tRtseq, h.sendBufTail, h.tRtt⟩

theorem Timed.untimed (h : Timed tcb log) (hacked : tcb'.sndUna.toNat ≤ tcb'.sndNxt.toNat)
    (hsent : tcb'.sndNxt.toNat ≤ tcb'.sndMax.toNat) (hmax : tcb'.sndMax = tcb.sndMax)
    (htRtt : tcb'.tRtt = 0) (htail : tcb'.state ≠ .established → tcb'.sendBufTail = 0) :
    Timed tcb' log where
  acked := hacked
  sent := hsent
  small := by
    rw [hmax]
    exact h.small
  below := by
    rw [hmax]
    exact h.below
  timed := fun htiming => absurd htRtt htiming
  idle := fun hstate => ⟨htRtt, htail hstate⟩

theorem advanceSndNxt_timing (tcb : Tcb) (dataLength : U32) (newSynFin : Bool) :
    (advanceSndNxt tcb dataLength newSynFin).tRtt =
        (if tcb.tRtt = 0 ∧ tcb.sndNxt = tcb.sndMax ∧ dataLength > 0 then 1 else tcb.tRtt) ∧
      (advanceSndNxt tcb dataLength newSynFin).tRtseq =
        if tcb.tRtt = 0 ∧ tcb.sndNxt = tcb.sndMax ∧ dataLength > 0 then tcb.sndNxt
        else tcb.tRtseq := by
  simp only [advanceSndNxt, raiseSndMax, armRexmt, startTiming]
  split_ifs <;> exact ⟨rfl, rfl⟩

theorem seqGt_iff {a b : U32} (ha : a.toNat < 2 ^ 31) (hb : b.toNat < 2 ^ 31) :
    seqGt a b ↔ b.toNat < a.toNat := by
  rw [seqGt, decide_eq_true_eq]
  exact sub_pos_iff (by omega) (by omega)

theorem outputLength_le (tcb : Tcb) : (outputLength tcb).toNat ≤ mss.toNat := by
  rcases Nat.eq_zero_or_pos (outputLength tcb).toNat with hzero | hpos
  · omega
  · exact (outputLength_bounds hpos).2.1

theorem Timed.untransmitted (h : Timed tcb log) {q : U32} (hq : tcb.sndMax.toNat ≤ q.toNat) :
    transmissions log q = 0 := by
  rw [transmissions, List.countP_eq_zero]
  intro seg hseg
  rw [covers, decide_eq_true_eq, Nat.not_lt]
  rcases h.below seg hseg with hempty | hbelow
  · rw [hempty]
    exact Nat.zero_le _
  · rw [toNat_sub_of_ge (by omega)]
    omega

theorem nextSndMax_toNat {consumed : U32} (hend : (tcb.sndNxt + consumed).toNat < 2 ^ 31)
    (hmax : tcb.sndMax.toNat < 2 ^ 31) :
    (nextSndMax tcb consumed).toNat = max tcb.sndMax.toNat (tcb.sndNxt + consumed).toNat := by
  have hgt := seqGt_iff hend hmax
  rw [nextSndMax]
  split
  · rename_i h
    rw [hgt] at h
    omega
  · rename_i h
    rw [hgt] at h
    omega

theorem consumed_toNat {dataLength : U32} {newSynFin : Bool}
    (hlen : dataLength.toNat ≤ mss.toNat) :
    (dataLength + if newSynFin then 1 else 0 : U32).toNat =
      dataLength.toNat + if newSynFin then 1 else 0 := by
  rw [mss_toNat] at hlen
  cases newSynFin with
  | false => exact congrArg BitVec.toNat (BitVec.add_zero dataLength)
  | true =>
      have hone : (1 : U32).toNat = 1 := rfl
      simp only [if_true]
      rw [BitVec.toNat_add, hone, Nat.mod_eq_of_lt (by omega)]

theorem consumed_le_endOf (timeUs : U64) (tcb : Tcb) :
    tcb.sndNxt.toNat + (outputLength tcb).toNat +
        (if sendingNewSynFin (tcpOutflags tcb.state) tcb then 1 else 0) ≤
      endOf (buildSegment timeUs tcb tcb.sndNxt (tcpOutflags tcb.state) (outputLength tcb)) := by
  have hlen := payload_length_buildSegment timeUs tcb tcb.sndNxt (tcpOutflags tcb.state) _
    (outputLength_le tcb)
  have hflags : sendingNewSynFin (tcpOutflags tcb.state) tcb →
      hasFlag (tcpOutflags tcb.state) (thSyn ||| thFin) := by
    rw [sendingNewSynFin, Bool.and_eq_true]
    exact And.left
  rw [endOf, hlen]
  apply Nat.add_le_add_left
  split
  · rename_i hsyn
    exact Nat.le_of_eq (if_pos (hflags hsyn)).symm
  · exact Nat.zero_le _

/-- The segment with which `utcp_output` consumes sequence numbers. -/
def nextSegment (timeUs : U64) (tcb : Tcb) : TcpSegment :=
  buildSegment timeUs tcb tcb.sndNxt (tcpOutflags tcb.state) (outputLength tcb)

theorem nextSegment_seq (timeUs : U64) (tcb : Tcb) :
    (nextSegment timeUs tcb).hdr.thSeq = tcb.sndNxt := rfl

theorem nextSegment_payload (timeUs : U64) (tcb : Tcb) :
    (payload (nextSegment timeUs tcb)).length = (outputLength tcb).toNat :=
  payload_length_buildSegment _ _ _ _ _ (outputLength_le tcb)

theorem transmissions_nextSegment (timeUs : U64) (tcb : Tcb) (q : U32) :
    transmissions (log ++ [.freeSpace (bufUsed tcb) tcb.oooBytes,
        .sent .output timeUs (nextSegment timeUs tcb)]) q =
      transmissions log q + if (q - tcb.sndNxt).toNat < (outputLength tcb).toNat then 1 else 0 := by
  have hsegments : segments [.freeSpace (bufUsed tcb) tcb.oooBytes,
      .sent .output timeUs (nextSegment timeUs tcb)] = [nextSegment timeUs tcb] := rfl
  rw [transmissions_append, transmissions, transmissions, hsegments, List.countP_singleton, covers,
    nextSegment_seq, nextSegment_payload]
  simp only [decide_eq_true_eq]

theorem advanceSndNxt_fields (tcb : Tcb) (dataLength : U32) (newSynFin : Bool) :
    let consumed := dataLength + if newSynFin then 1 else 0
    let advanced := advanceSndNxt tcb dataLength newSynFin
    advanced.sndNxt = tcb.sndNxt + consumed ∧ advanced.sndMax = nextSndMax tcb consumed ∧
      advanced.sndUna = tcb.sndUna ∧ advanced.sendBufTail = tcb.sendBufTail := by
  intro consumed advanced
  obtain ⟨_, _, _, heq⟩ := advanceSndNxt_eq tcb dataLength newSynFin
  rw [show advanced = _ from heq]
  exact ⟨rfl, rfl, rfl, rfl⟩

theorem advanceSndNxt_toNat {timeUs : U64} (hend : endOf (nextSegment timeUs tcb) < 2 ^ 31)
    (hmax : tcb.sndMax.toNat < 2 ^ 31) :
    let advanced := advanceSndNxt tcb (outputLength tcb)
      (sendingNewSynFin (tcpOutflags tcb.state) tcb)
    tcb.sndNxt.toNat + (outputLength tcb).toNat ≤ advanced.sndNxt.toNat ∧
      advanced.sndNxt.toNat < 2 ^ 31 ∧
      advanced.sndMax.toNat = max tcb.sndMax.toNat advanced.sndNxt.toNat := by
  intro advanced
  obtain ⟨hnxt, hraised, -⟩ := advanceSndNxt_fields tcb (outputLength tcb)
    (sendingNewSynFin (tcpOutflags tcb.state) tcb)
  have hwire : _ ≤ endOf (nextSegment timeUs tcb) := consumed_le_endOf timeUs tcb
  have hconsumed := @consumed_toNat _ (sendingNewSynFin (tcpOutflags tcb.state) tcb)
    (outputLength_le tcb)
  generalize (outputLength tcb + if sendingNewSynFin (tcpOutflags tcb.state) tcb then 1 else 0 :
    U32) = consumed at hnxt hraised hconsumed
  have hsum : (tcb.sndNxt + consumed).toNat = tcb.sndNxt.toNat + consumed.toNat := by
    rw [BitVec.toNat_add, Nat.mod_eq_of_lt (by omega)]
  rw [hnxt, hraised, nextSndMax_toNat (by omega) hmax]
  exact ⟨by omega, by omega, rfl⟩

theorem advance_keeps (tcb : Tcb) (timeUs : U64) (newSynFin : Bool)
    (hsyn : sendingNewSynFin (tcpOutflags tcb.state) tcb = newSynFin) :
    Keeps tcb
      [.freeSpace (bufUsed tcb) tcb.oooBytes, .sent .output timeUs (nextSegment timeUs tcb)]
      (advanceSndNxt tcb (outputLength tcb) newSynFin) := by
  subst hsyn
  intro sofar hshort h
  have hsegments : segments [.freeSpace (bufUsed tcb) tcb.oooBytes,
      .sent .output timeUs (nextSegment timeUs tcb)] = [nextSegment timeUs tcb] := rfl
  have hend : endOf (nextSegment timeUs tcb) < 2 ^ 31 := by
    apply hshort
    rw [segments_append, hsegments]
    exact List.mem_append_right _ List.mem_cons_self
  obtain ⟨hnxt, hbound, hmax⟩ := advanceSndNxt_toNat hend h.small
  obtain ⟨-, -, hsndUna, htail⟩ := advanceSndNxt_fields tcb (outputLength tcb)
    (sendingNewSynFin (tcpOutflags tcb.state) tcb)
  obtain ⟨htRtt, htRtseq⟩ := advanceSndNxt_timing tcb (outputLength tcb)
    (sendingNewSynFin (tcpOutflags tcb.state) tcb)
  have hacked := h.acked
  have hsent := h.sent
  have hsmall := h.small
  have hmss := outputLength_le tcb
  rw [mss_toNat] at hmss
  refine ⟨?_, by omega, by omega, ?_, ?_, ?_⟩
  · rw [hsndUna]
    omega
  · rw [segments_append, hsegments]
    intro seg' hseg'
    rcases List.mem_append.mp hseg' with hold | hnew
    · exact (h.below seg' hold).imp_right fun hbelow => by omega
    · obtain rfl := List.mem_singleton.mp hnew
      right
      rw [nextSegment_seq, nextSegment_payload]
      omega
  · rw [htRtt, htRtseq, transmissions_nextSegment]
    split
    · -- a new timing: the byte at `snd_max` was not sent before
      rename_i hstarts
      intro _
      have hpos : 0 < (outputLength tcb).toNat := hstarts.2.2
      rw [h.untransmitted (by rw [hstarts.2.1]), toNat_sub_self, if_pos hpos]
      exact ⟨by omega, rfl⟩
    · -- the byte that is timed lies below `snd_nxt`
      intro htiming
      obtain ⟨hbefore, honce⟩ := h.timed htiming
      rw [honce, if_neg ?_]
      · exact ⟨by omega, rfl⟩
      · rw [toNat_sub_of_lt hbefore]
        omega
  · rw [advanceSndNxt_state, htRtt, htail]
    intro hstate
    rw [if_neg ?_]
    · exact h.idle hstate
    · rintro ⟨_, _, hpos⟩
      rw [outputLength, if_neg hstate] at hpos
      exact absurd hpos (by decide)

theorem outputStep_keeps (h : OutputStep tcb log tcb') : Keeps tcb log tcb' := by
  cases h with
  | flags tfAcknow tfDelack =>
      apply keeps_of_same
      · simp
      · exact ⟨rfl, rfl, rfl, rfl, rfl, rfl, Decidable.em _⟩
  | delack ticks =>
      apply keeps_of_same
      · simp
      · exact ⟨rfl, rfl, rfl, rfl, rfl, rfl, Decidable.em _⟩
  | bare timeUs hlen hsyn =>
      apply keeps_of_same
      · simp only [segments, List.filterMap_cons, List.filterMap_nil, List.mem_singleton]
        rintro seg rfl
        apply List.eq_nil_of_length_eq_zero
        exact payload_length_buildSegment _ _ _ _ 0 (by decide)
      · exact .refl tcb
  | advance timeUs newSynFin hsyn hadvance => exact advance_keeps tcb timeUs newSynFin hsyn

theorem utcpOutput_keeps (readings : Nat → Reading) (tcb : Tcb) :
    Keeps tcb (utcpOutput readings tcb).log (utcpOutput readings tcb).tcb :=
  keeps_composes.trace (fun _ _ _ => outputStep_keeps) (utcpOutput_trace readings tcb)

theorem output_keeps (readings : Nat → Reading) {before : Tcb} (h : SameTiming tcb before) :
    Keeps tcb (utcpOutput readings before).log (utcpOutput readings before).tcb := by
  have hbefore : Keeps tcb [] before := keeps_of_same (by simp) h
  have hafter := keeps_composes.append hbefore (utcpOutput_keeps readings before)
  rwa [List.nil_append] at hafter

/-- The module ends the timing when it retransmits. -/
def dropsTiming : TcpCongestionOps → Bool
  | .tahoe | .reno => false
  | .newReno | .lstmReno => true

/-- Congestion control calls `utcp_retransmit_segment`: on the third duplicate
ACK, and in New Reno and LSTM-Reno on an ACK of a part of the window. -/
def resends (tcb : Tcb) : CcEventArgs → Bool
  | .ack _ _ =>
      dropsTiming tcb.ccOps && tcb.caState == .recovery && !seqGeq tcb.sndUna tcb.recover
  | .dupAck totalDups =>
      totalDups == 3 && (!dropsTiming tcb.ccOps || seqGt tcb.sndUna tcb.recover)
  | _ => false

/-- How many bytes `utcp_retransmit_segment` sends. -/
def resendLength (tcb : Tcb) (seq : U32) : Nat := min (retransmitBuffered tcb seq).toNat mss.toNat

/-- The bytes from a sequence number that would be resent were all sent before,
and none of them is being timed after it. -/
def CleanResend (tcb : Tcb) (seq : U32) : Prop :=
  resendLength tcb seq ≤ (tcb.sndMax - seq).toNat ∧
    (dropsTiming tcb.ccOps ∨ tcb.tRtt = 0 ∨ resendLength tcb seq ≤ (tcb.tRtseq - seq).toNat)

/-- What congestion control does with an event that is not a timeout, and with
the timing. -/
inductive Reacts (env : Env) (tcb : Tcb) (args : CcEventArgs) : Out → Prop
  | change (cwnd ssthresh recover : U32) (caState : TcpCaState) :
      Reacts env tcb args ⟨{ tcb with cwnd, ssthresh, recover, caState }, []⟩
  | resend (h : resends tcb args) (cwnd ssthresh recover : U32) (caState : TcpCaState)
      (tDupacks : U8) (tRtt : U32) (htRtt : tRtt = if dropsTiming tcb.ccOps then 0 else tcb.tRtt) :
      Reacts env tcb args
        ⟨{ tcb with cwnd, ssthresh, recover, caState, tDupacks, tRtt },
          utcpRetransmitSegment env.retransmit tcb tcb.sndUna⟩
  | burst (cwnd : U32) : Reacts env tcb args (utcpOutput env.burst { tcb with cwnd })

theorem aimd_reacts {args : CcEventArgs} {ssthresh acked : U32} {caState : TcpCaState} {out : Out}
    (h : (do
      let tcb ← ccAimd { tcb with ssthresh, caState } acked
      some (Out.mk tcb [])) = some out) : Reacts env tcb args out := by
  obtain ⟨_, haimd, hout⟩ := Option.bind_eq_some_iff.mp h
  obtain ⟨_, _, rfl⟩ := ccAimd_some haimd
  cases hout
  exact .change ..

theorem Reacts.nothing (env : Env) (tcb : Tcb) (args : CcEventArgs) :
    Reacts env tcb args ⟨tcb, []⟩ :=
  .change tcb.cwnd tcb.ssthresh tcb.recover tcb.caState

theorem tahoe_reacts {args : CcEventArgs} {out : Out} (hops : dropsTiming tcb.ccOps = false)
    (hargs : ∀ flight, args ≠ .timeout flight) (h : tahoeCongControl env tcb args = some out) :
    Reacts env tcb args out := by
  cases args with
  | init =>
      cases h
      exact .change ..
  | ack acked rttUs => exact @aimd_reacts env tcb _ tcb.ssthresh _ .open _ h
  | dupAck totalDups =>
      simp only [tahoeCongControl] at h
      split at h
      · rename_i hthree
        cases h
        refine .resend ?_ _ _ _ _ _ tcb.tRtt ?_
        · simp [resends, hthree, hops]
        · rw [hops]
          rfl
      · cases h
        exact .nothing ..
  | timeout flight => exact absurd rfl (hargs flight)

theorem reno_reacts {args : CcEventArgs} {out : Out} (hops : dropsTiming tcb.ccOps = false)
    (hargs : ∀ flight, args ≠ .timeout flight) (h : renoCongControl env tcb args = some out) :
    Reacts env tcb args out := by
  cases args with
  | init =>
      cases h
      exact .change ..
  | ack acked rttUs =>
      simp only [renoCongControl] at h
      split at h
      · cases h
        exact .change ..
      · exact @aimd_reacts env tcb _ tcb.ssthresh _ tcb.caState _ h
  | dupAck totalDups =>
      simp only [renoCongControl] at h
      split at h
      · rename_i hthree
        cases h
        refine .resend ?_ _ _ _ _ _ tcb.tRtt ?_
        · simp [resends, hthree, hops]
        · rw [hops]
          rfl
      · split at h
        · cases h
          exact .burst _
        · cases h
          exact .nothing ..
  | timeout flight => exact absurd rfl (hargs flight)

theorem recoveryAck_reacts (env : Env) {acked rttUs : U32} (hops : dropsTiming tcb.ccOps = true)
    (hrecovery : tcb.caState = .recovery) :
    Reacts env tcb (.ack acked rttUs) (recoveryAck env tcb acked) := by
  simp only [recoveryAck]
  split
  · exact .change ..
  · rename_i hpartial
    refine .resend ?_ _ _ _ _ _ 0 ?_
    · simp [resends, hops, hrecovery, hpartial]
    · rw [hops]
      rfl

theorem recoveryDupAck_reacts (env : Env) {totalDups : U32} (hops : dropsTiming tcb.ccOps = true) :
    Reacts env tcb (.dupAck totalDups) (recoveryDupAck env tcb totalDups) := by
  simp only [recoveryDupAck]
  split
  · rename_i hthree
    split
    · rename_i hbeyond
      refine .resend ?_ _ _ _ _ _ 0 ?_
      · simp [resends, hthree, hbeyond]
      · rw [hops]
        rfl
    · exact .nothing ..
  · split
    · exact .burst _
    · exact .nothing ..

theorem newReno_reacts {args : CcEventArgs} {out : Out} (hops : dropsTiming tcb.ccOps = true)
    (hargs : ∀ flight, args ≠ .timeout flight) (h : newRenoCongControl env tcb args = some out) :
    Reacts env tcb args out := by
  cases args with
  | init =>
      cases h
      exact .change ..
  | ack acked rttUs =>
      simp only [newRenoCongControl] at h
      split at h
      · rename_i hrecovery
        cases h
        exact recoveryAck_reacts env hops hrecovery
      · exact @aimd_reacts env tcb _ tcb.ssthresh _ tcb.caState _ h
  | dupAck totalDups =>
      cases h
      exact recoveryDupAck_reacts env hops
  | timeout flight => exact absurd rfl (hargs flight)

theorem lstmReno_reacts {args : CcEventArgs} {out : Out} (hops : dropsTiming tcb.ccOps = true)
    (hargs : ∀ flight, args ≠ .timeout flight) (h : lstmRenoCongControl env tcb args = some out) :
    Reacts env tcb args out := by
  cases args with
  | init =>
      cases h
      exact .change ..
  | ack acked rttUs =>
      simp only [lstmRenoCongControl] at h
      split at h
      · rename_i hrecovery
        cases h
        rw [lstmRecoveryAck_eq]
        exact recoveryAck_reacts env hops hrecovery
      · exact @aimd_reacts env tcb _ _ _ tcb.caState _ h
  | dupAck totalDups =>
      cases h
      rw [lstmRecoveryDupAck_eq]
      exact recoveryDupAck_reacts env hops
  | timeout flight => exact absurd rfl (hargs flight)

theorem congControl_reacts {args : CcEventArgs} {out : Out}
    (hargs : ∀ flight, args ≠ .timeout flight) (h : congControl env tcb args = some out) :
    Reacts env tcb args out := by
  unfold congControl at h
  split at h
  · rename_i hops
    exact tahoe_reacts (congrArg dropsTiming hops) hargs h
  · rename_i hops
    exact reno_reacts (congrArg dropsTiming hops) hargs h
  · rename_i hops
    exact newReno_reacts (congrArg dropsTiming hops) hargs h
  · rename_i hops
    exact lstmReno_reacts (congrArg dropsTiming hops) hargs h

theorem utcpRetransmitSegment_segments (reading : Reading) (tcb : Tcb) (seq : U32) :
    segments (utcpRetransmitSegment reading tcb seq) = [] ∨
      tcb.state = .established ∧ reading.alloc = true ∧
        ∃ seg, segments (utcpRetransmitSegment reading tcb seq) = [seg] ∧
          seg.hdr.thSeq = seq ∧ (payload seg).length = resendLength tcb seq := by
  rw [utcpRetransmitSegment]
  split
  · exact .inl rfl
  · rename_i hstate
    rw [ne_eq, not_not] at hstate
    rcases Bool.eq_false_or_eq_true reading.alloc with halloc | halloc
    · right
      refine ⟨hstate, halloc, buildSegment reading.timeUs tcb seq (tcpOutflags tcb.state)
        (if retransmitBuffered tcb seq < mss then retransmitBuffered tcb seq else mss), ?_, rfl, ?_⟩
      · simp only [utcpSendSegment, halloc, if_true, Option.getD_some]
        rfl
      · have hsmaller := smaller_toNat (retransmitBuffered tcb seq) mss
        rw [payload_length_buildSegment _ _ _ _ _ (by omega), hsmaller]
        rfl
    · left
      simp only [utcpSendSegment, halloc]
      rfl

theorem reacts_keeps {args : CcEventArgs} {out : Out}
    (hclean : tcb.state = .established → env.retransmit.alloc = true → resends tcb args →
      CleanResend tcb tcb.sndUna)
    (h : Reacts env tcb args out) : Keeps tcb out.log out.tcb := by
  cases h with
  | change =>
      apply keeps_of_same
      · simp
      · exact ⟨rfl, rfl, rfl, rfl, rfl, rfl, Decidable.em _⟩
  | burst cwnd =>
      apply output_keeps
      exact ⟨rfl, rfl, rfl, rfl, rfl, rfl, Decidable.em _⟩
  | resend hresends cwnd ssthresh recover caState tDupacks tRtt htRtt =>
      have hend : tRtt ≠ 0 → dropsTiming tcb.ccOps = false ∧ tRtt = tcb.tRtt := by
        rw [htRtt]
        split
        · exact fun h => absurd rfl h
        · rename_i hdrops
          exact fun _ => ⟨Bool.not_eq_true _ ▸ hdrops, rfl⟩
      rcases utcpRetransmitSegment_segments env.retransmit tcb tcb.sndUna with hnone |
        ⟨hstate, halloc, seg, hsegments, hseq, hlen⟩
      · apply keeps_of_same
        · simp [hnone]
        · refine ⟨rfl, rfl, rfl, rfl, rfl, rfl, ?_⟩
          rcases Decidable.em (tRtt = 0) with hzero | htiming
          · exact .inl hzero
          · exact .inr ((hend htiming).2 ▸ htiming)
      · obtain ⟨hold, huntimed⟩ := hclean hstate halloc hresends
        intro sofar hshort ht
        have hacked := ht.acked
        have hsent := ht.sent
        rw [toNat_sub_of_ge (by omega)] at hold
        refine ⟨ht.acked, ht.sent, ht.small, ?_, ?_, fun h => absurd hstate h⟩
        · rw [segments_append, hsegments]
          intro seg' hseg'
          rcases List.mem_append.mp hseg' with hearlier | hnew
          · exact ht.below seg' hearlier
          · obtain rfl := List.mem_singleton.mp hnew
            right
            rw [hseq, hlen]
            show _ ≤ tcb.sndMax.toNat
            omega
        · intro htiming
          obtain ⟨hdrops, hsame⟩ := hend htiming
          have htiming' : tcb.tRtt ≠ 0 := hsame ▸ htiming
          obtain ⟨hbefore, honce⟩ := ht.timed htiming'
          refine ⟨hbefore, ?_⟩
          rw [transmissions_append]
          show transmissions sofar tcb.tRtseq + transmissions _ tcb.tRtseq = 1
          rw [honce, transmissions, hsegments, List.countP_singleton, covers, hseq, hlen,
            decide_eq_false, if_neg Bool.false_ne_true]
          rw [hdrops] at huntimed
          rcases huntimed with hfalse | hzero | hbehind
          · cases hfalse
          · exact absurd hzero htiming'
          · omega

/-- A segment makes congestion control resend from the byte it asks for. -/
def ResendsOn (tcb : Tcb) (seg : TcpSegment) : Prop :=
  (validAck tcb seg.hdr.thAck ∧ dropsTiming tcb.ccOps ∧ tcb.caState = .recovery ∧
      seqGeq seg.hdr.thAck tcb.recover = false) ∨
    (validAck tcb seg.hdr.thAck = false ∧ seg.hdr.thAck = tcb.sndUna ∧
      ¬ getScaledWin tcb seg.hdr > tcb.sndWnd ∧ payload seg = [] ∧ tcb.sndUna ≠ tcb.sndMax ∧
      tcb.tDupacks = 2 ∧ (dropsTiming tcb.ccOps → seqGt tcb.sndUna tcb.recover))

instance (tcb : Tcb) (seg : TcpSegment) : Decidable (ResendsOn tcb seg) :=
  inferInstanceAs (Decidable (_ ∨ _))

/-- A segment does not make congestion control resend what is new or timed. -/
def CleanInput (env : Env) (tcb : Tcb) (seg : TcpSegment) : Prop :=
  tcb.state = .established → env.retransmit.alloc = true →
    ResendsOn (processWindowOption env seg tcb) seg → CleanResend tcb seg.hdr.thAck

theorem validAck_iff (hmax : tcb.sndMax.toNat < 2 ^ 31) (hle : tcb.sndUna.toNat ≤ tcb.sndMax.toNat)
    {ackNum : U32} :
    validAck tcb ackNum = true ↔
      tcb.sndUna.toNat < ackNum.toNat ∧ ackNum.toNat ≤ tcb.sndMax.toNat := by
  have hack := ackNum.isLt
  rw [validAck, Bool.and_eq_true, seqLeq, decide_eq_true_eq, seqGt, decide_eq_true_eq,
    ← Int.not_lt, toInt_pos_iff, toInt_pos_iff]
  rcases Nat.lt_or_ge tcb.sndUna.toNat ackNum.toNat with hlt | hge
  · rw [toNat_sub_of_ge (Nat.le_of_lt hlt)]
    rcases Nat.lt_or_ge tcb.sndMax.toNat ackNum.toNat with hbeyond | hwithin
    · rw [toNat_sub_of_ge (Nat.le_of_lt hbeyond)]
      omega
    · rcases Nat.eq_or_lt_of_le hwithin with heq | hbelow
      · rw [BitVec.eq_of_toNat_eq heq, toNat_sub_self]
        omega
      · rw [toNat_sub_of_lt hbelow]
        omega
  · rcases Nat.eq_or_lt_of_le hge with heq | hbelow
    · rw [BitVec.eq_of_toNat_eq heq, toNat_sub_self]
      omega
    · rw [toNat_sub_of_lt hbelow]
      omega

theorem acceptAck_keeps (hdr : TcpHdr) (hack : validAck tcb hdr.thAck) :
    Keeps tcb [] (acceptAck tcb hdr) := by
  intro sofar _ h
  have hacked := h.acked
  have hsent := h.sent
  have hsmall := h.small
  obtain ⟨hnew, hwithin⟩ := (validAck_iff h.small (by omega)).mp hack
  have hgt := @seqGt_iff hdr.thAck tcb.sndNxt (by omega) (by omega)
  have hnxt : (acceptAck tcb hdr).sndNxt.toNat = max tcb.sndNxt.toNat hdr.thAck.toNat := by
    show (if seqGt hdr.thAck tcb.sndNxt then hdr.thAck else tcb.sndNxt).toNat = _
    split
    · rename_i hbeyond
      rw [hgt] at hbeyond
      omega
    · rename_i hbeyond
      rw [hgt] at hbeyond
      omega
  rw [List.append_nil]
  refine ⟨?_, ?_, h.small, h.below, ?_, h.idle⟩
  · rw [hnxt]
    exact Nat.le_max_right _ _
  · rw [hnxt]
    exact Nat.max_le.mpr ⟨h.sent, hwithin⟩
  · intro htiming
    obtain ⟨hbefore, honce⟩ := h.timed htiming
    rw [hnxt]
    exact ⟨Nat.lt_of_lt_of_le hbefore (Nat.le_max_left _ _), honce⟩

theorem measureRtt_tRtt (env : Env) (seg : TcpSegment) (tcb : Tcb) :
    (measureRtt env seg tcb).1.tRtt = 0 ∨ (measureRtt env seg tcb).1.tRtt = tcb.tRtt := by
  unfold measureRtt
  split
  · split
    · split
      · exact .inr rfl
      · exact .inl rfl
    · exact .inr rfl
  · split
    · exact .inl rfl
    · exact .inr rfl

theorem rearmRexmt_tRtt (env : Env) (tcb : Tcb) : (rearmRexmt env tcb).tcb.tRtt = tcb.tRtt := by
  unfold rearmRexmt
  split <;> rfl

theorem rearmRexmt_segments (env : Env) (tcb : Tcb) : segments (rearmRexmt env tcb).log = [] := by
  unfold rearmRexmt
  split
  · rfl
  · simp only
    split <;> rfl

theorem beforeAckEvent_keeps (env : Env) (hack : validAck tcb seg.hdr.thAck) :
    Keeps tcb (beforeAckEvent env tcb seg).log (beforeAckEvent env tcb seg).tcb := by
  have hrest : Keeps (acceptAck tcb seg.hdr) (beforeAckEvent env tcb seg).log
      (beforeAckEvent env tcb seg).tcb := by
    apply keeps_of_same
    · rw [beforeAckEvent, rearmRexmt_segments]
      simp
    · have htRtt := measureRtt_tRtt env seg (acceptAck tcb seg.hdr)
      rw [← rearmRexmt_tRtt env (measureRtt env seg (acceptAck tcb seg.hdr)).1] at htRtt
      change (beforeAckEvent env tcb seg).tcb.tRtt = 0 ∨ (beforeAckEvent env tcb seg).tcb.tRtt = _ at htRtt
      obtain ⟨_, _, _, _, _, _, _, heq⟩ := beforeAckEvent_eq env tcb seg
      rw [heq] at htRtt ⊢
      refine ⟨rfl, rfl, rfl, rfl, rfl, rfl, ?_⟩
      rcases htRtt with hzero | hsame
      · exact .inl hzero
      · rcases Decidable.em (tcb.tRtt = 0) with hzero | htiming
        · exact .inl (hsame.trans hzero)
        · exact .inr htiming
  have hkeeps := keeps_composes.append (acceptAck_keeps seg.hdr hack) hrest
  rwa [List.nil_append] at hkeeps

theorem dupacks_three {tDupacks dupacks : U8}
    (h : dupacks = if tDupacks < 255 then tDupacks + 1 else tDupacks)
    (hthree : dupacks.setWidth 32 = (3 : U32)) : tDupacks = 2 := by
  subst h
  revert hthree
  revert tDupacks
  decide

theorem handleAck_keeps {out : Out}
    (hclean : tcb.state = .established → env.retransmit.alloc = true → ResendsOn tcb seg →
      CleanResend tcb seg.hdr.thAck)
    (h : handleAck env tcb seg = some out) : Keeps tcb out.log out.tcb := by
  cases handleAck_cases h with
  | acked cc hack hcc =>
      apply keeps_composes.append (beforeAckEvent_keeps env hack)
      obtain ⟨_, _, _, _, _, _, _, heq⟩ := beforeAckEvent_eq env tcb seg
      rw [heq] at hcc ⊢
      refine reacts_keeps ?_ (congControl_reacts (by simp) hcc)
      intro hstate halloc hresends
      simp only [resends, Bool.and_eq_true, beq_iff_eq, Bool.not_eq_true'] at hresends
      obtain ⟨⟨hdrops, hrecovery⟩, hpartial⟩ := hresends
      obtain ⟨hold, _⟩ := hclean hstate halloc (.inl ⟨hack, hdrops, hrecovery, hpartial⟩)
      exact ⟨hold, .inl hdrops⟩
  | window hack hsame hlarger =>
      apply keeps_of_same
      · simp
      · exact ⟨rfl, rfl, rfl, rfl, rfl, rfl, Decidable.em _⟩
  | duplicate _ dupacks hack hsame hsmaller hbare hflight hdupacks hcc =>
      have hwindow : SameTiming tcb
          { tcb with sndWnd := getScaledWin tcb seg.hdr, tDupacks := dupacks } :=
        ⟨rfl, rfl, rfl, rfl, rfl, rfl, Decidable.em _⟩
      have hbefore : Keeps tcb [] _ := keeps_of_same (by simp) hwindow
      have hkeeps := keeps_composes.append hbefore
        (reacts_keeps ?_ (congControl_reacts (by simp) hcc))
      · rwa [List.nil_append] at hkeeps
      · intro hstate halloc hresends
        simp only [resends, Bool.and_eq_true, beq_iff_eq, Bool.or_eq_true, Bool.not_eq_true']
          at hresends
        obtain ⟨hthree, hbeyond⟩ := hresends
        have hresend := hclean hstate halloc (.inr ⟨hack, hsame, hsmaller, hbare, hflight,
          dupacks_three hdupacks hthree, fun hdrops => hbeyond.resolve_left (by simp [hdrops])⟩)
        rw [hsame] at hresend
        exact hresend
  | ignored => exact keeps_composes.nil tcb

theorem dataStep_keeps {In : TcpSegment → Prop} (h : DataStep In tcb log tcb') :
    Keeps tcb log tcb' := by
  cases h with
  | output h => exact outputStep_keeps h
  | receive h =>
      apply keeps_of_same
      · cases h <;> simp [segments]
      · cases h <;> exact ⟨rfl, rfl, rfl, rfl, rfl, rfl, Decidable.em _⟩

theorem handleData_keeps (env : Env) (tcb : Tcb) (seg : TcpSegment) :
    Keeps tcb (handleData env tcb seg).log (handleData env tcb seg).tcb := by
  have htrace : Trace (DataStep fun _ => True) tcb (handleData env tcb seg).log
      (handleData env tcb seg).tcb := handleData_trace env trivial
  exact keeps_composes.trace (fun _ _ _ => dataStep_keeps) htrace

theorem options_same (env : Env) (seg : TcpSegment) (tcb : Tcb) :
    SameTiming tcb (processWindowOption env seg tcb) := by
  obtain ⟨_, _, _, _, heq⟩ := processWindowOption_eq env seg tcb
  rw [heq]
  exact ⟨rfl, rfl, rfl, rfl, rfl, rfl, Decidable.em _⟩

theorem handleReceivedData_keeps {out : Out} (hclean : CleanInput env tcb seg)
    (h : handleReceivedData env tcb seg = some out) : Keeps tcb out.log out.tcb := by
  obtain ⟨acked, hacked, hout⟩ := Option.bind_eq_some_iff.mp h
  cases hout
  have hoptions : Keeps tcb [] _ := keeps_of_same (by simp) (options_same env seg tcb)
  have hack : Keeps (processWindowOption env seg tcb) acked.log acked.tcb := by
    refine handleAck_keeps ?_ hacked
    intro hstate halloc hresends
    rw [processWindowOption_state] at hstate
    have hresend := hclean hstate halloc hresends
    obtain ⟨_, _, _, _, heq⟩ := processWindowOption_eq env seg tcb
    rw [heq]
    exact hresend
  have hkeeps := keeps_composes.append hoptions
    (keeps_composes.append hack (handleData_keeps env acked.tcb seg))
  rwa [List.nil_append] at hkeeps

theorem keeps_silent (h : ∀ sofar, Timed tcb sofar → Timed tcb' sofar) : Keeps tcb [] tcb' := by
  intro sofar _ ht
  rw [List.append_nil]
  exact h sofar ht

theorem init_same {cc : Out} (h : congControl env tcb .init = some cc) :
    cc.log = [] ∧ SameTiming tcb cc.tcb := by
  obtain ⟨_, heq⟩ := congControl_init env tcb
  rw [heq] at h
  cases h
  exact ⟨rfl, rfl, rfl, rfl, rfl, rfl, rfl, Decidable.em _⟩

theorem acceptSyn_keeps (env : Env) (seg : TcpSegment) (peer : Peer) (hstate : tcb.state = .listen) :
    Keeps tcb [] (acceptSyn env tcb seg peer) := by
  apply keeps_silent
  intro sofar h
  have hopening : tcb.state ≠ .established := by
    rw [hstate]
    decide
  obtain ⟨hidle, htail⟩ := h.idle hopening
  obtain ⟨_, _, _, _, heq⟩ := processWindowOption_eq env seg tcb
  rw [acceptSyn, heq]
  exact h.untimed (Nat.le_refl _) (Nat.zero_le _) rfl hidle fun _ => htail

theorem acceptSynAck_keeps (env : Env) (hstate : tcb.state = .synSent)
    (hawaited : isAwaitedSynAck tcb seg.hdr) : Keeps tcb [] (acceptSynAck env tcb seg) := by
  apply keeps_silent
  intro sofar h
  have hopening : tcb.state ≠ .established := by
    rw [hstate]
    decide
  obtain ⟨hidle, htail⟩ := h.idle hopening
  simp only [isAwaitedSynAck, Bool.and_eq_true, beq_iff_eq] at hawaited
  obtain ⟨_, _, _, _, heq⟩ := processWindowOption_eq env seg
    { tcb with
      sndUna := seg.hdr.thAck
      irs := seg.hdr.thSeq
      rcvNxt := seg.hdr.thSeq + 1
      state := .established }
  rw [acceptSynAck, heq]
  exact h.untimed (Nat.le_of_eq (congrArg _ hawaited.2)) h.sent rfl hidle fun _ => htail

theorem acceptFinalAck_timed (h : Timed tcb log) (hstate : tcb.state = .synRecv)
    (hcompletes : completesHandshake tcb seg.hdr) :
    Timed (acceptFinalAck tcb seg) log ∧ (acceptFinalAck tcb seg).tRtt = 0 ∧
      (acceptFinalAck tcb seg).sendBufTail = 0 := by
  have hopening : tcb.state ≠ .established := by
    rw [hstate]
    decide
  obtain ⟨hidle, htail⟩ := h.idle hopening
  rw [completesHandshake, Bool.and_eq_true, beq_iff_eq] at hcompletes
  refine ⟨?_, hidle, htail⟩
  exact h.untimed (Nat.le_of_eq (congrArg _ hcompletes.2)) h.sent rfl hidle fun _ => htail

theorem cleanInput_of_empty (htail : tcb.sendBufTail = 0) (htRtt : tcb.tRtt = 0) :
    CleanInput env tcb seg := by
  intro _ _ _
  have hnothing : retransmitBuffered tcb seg.hdr.thAck = 0 := by
    simp only [retransmitBuffered]
    rw [htail]
    apply if_neg
    exact Nat.not_lt_zero _
  refine ⟨?_, .inr (.inl htRtt)⟩
  rw [resendLength, hnothing]
  exact (Nat.min_le_left _ _).trans (Nat.zero_le _)

theorem finalAck_keeps {cc rest : Out} (hstate : tcb.state = .synRecv)
    (hcompletes : completesHandshake tcb seg.hdr)
    (hcc : congControl env (acceptFinalAck tcb seg) .init = some cc)
    (hrest : handleReceivedData env cc.tcb seg = some rest) :
    Keeps tcb (cc.log ++ rest.log) rest.tcb := by
  intro sofar hshort h
  obtain ⟨hfinal, hidle, htail⟩ := acceptFinalAck_timed h hstate hcompletes
  obtain ⟨hlog, hsame⟩ := init_same hcc
  have hinit : Keeps (acceptFinalAck tcb seg) cc.log cc.tcb := by
    apply keeps_of_same _ hsame
    rw [hlog]
    simp
  have hclean : CleanInput env cc.tcb seg :=
    cleanInput_of_empty (hsame.sendBufTail.trans htail)
      (hsame.tRtt.resolve_right (not_not_intro hidle))
  exact keeps_composes.append hinit (handleReceivedData_keeps hclean hrest) sofar hshort hfinal

theorem inputCases_keeps {peer : Peer} {out : Out} (hclean : CleanInput env tcb seg)
    (h : InputCases env tcb seg peer out) : Keeps tcb out.log out.tcb := by
  cases h with
  | syn hstate hflag =>
      have hkeeps := keeps_composes.append (acceptSyn_keeps env seg peer hstate)
        (utcpOutput_keeps env.output _)
      rwa [List.nil_append] at hkeeps
  | synAck cc hstate hawaited hcc =>
      obtain ⟨hlog, hsame⟩ := init_same hcc
      have hkeeps := keeps_composes.append (acceptSynAck_keeps env hstate hawaited)
        (output_keeps env.output hsame.setAcknow)
      rw [hlog]
      rwa [List.nil_append] at hkeeps ⊢
  | finalAck cc rest hstate hcompletes hcc hrest =>
      exact finalAck_keeps hstate hcompletes hcc hrest
  | received _ hstate hnot hrest => exact handleReceivedData_keeps hclean hrest
  | ignored => exact keeps_composes.nil tcb

theorem expireRexmt_keeps (env : Env) (tcb : Tcb) (recover : U32) :
    Keeps tcb [.expired .rexmt, .backoff (tcb.tRxtshift + 1).toNat] (expireRexmt env tcb recover) := by
  intro sofar _ h
  have hacked := h.acked
  have hsent := h.sent
  obtain ⟨_, _, heq⟩ := expireRexmt_eq env tcb recover
  rw [heq]
  refine ⟨Nat.le_refl _, hacked.trans hsent, h.small, ?_, fun htiming => absurd rfl htiming,
    fun hstate => ⟨rfl, (h.idle hstate).2⟩⟩
  rw [segments_append]
  simpa [segments] using h.below

theorem tick_keeps {timer : Timer} {out : Out} (h : TickCases env tcb timer out) :
    Keeps tcb out.log out.tcb := by
  cases h with
  | idle => exact keeps_composes.nil tcb
  | countDown =>
      apply keeps_of_same
      · simp
      · exact ⟨rfl, rfl, rfl, rfl, rfl, rfl, Decidable.em _⟩
  | rexmt recover hticks hcc =>
      exact keeps_composes.append (expireRexmt_keeps env tcb recover) (utcpOutput_keeps env.output _)
  | delack hticks =>
      have hexpired : Keeps tcb [.expired .delack]
          { setTimer tcb .delack 0 with tfDelack := false, tfAcknow := true } := by
        apply keeps_of_same
        · simp [segments]
        · exact ⟨rfl, rfl, rfl, rfl, rfl, rfl, Decidable.em _⟩
      exact keeps_composes.append hexpired (utcpOutput_keeps env.output _)
  | other hticks hrexmt hdelack =>
      apply keeps_of_same
      · simp [segments]
      · exact ⟨rfl, rfl, rfl, rfl, rfl, rfl, Decidable.em _⟩

theorem ticked_same (tcb : Tcb) : SameTiming tcb (ticked tcb) := by
  refine ⟨rfl, rfl, rfl, rfl, rfl, rfl, ?_⟩
  rcases Decidable.em (tcb.tRtt = 0) with hzero | htiming
  · left
    simp [ticked, hzero]
  · exact .inr htiming

/-- Code that keeps it in `TCP_ESTABLISHED`, where it stays. -/
def Sending (tcb : Tcb) (log : List Event) (tcb' : Tcb) : Prop :=
  tcb.state = .established → tcb'.state = .established ∧ Keeps tcb log tcb'

theorem sending_composes : Composes Sending where
  nil := fun tcb hstate => ⟨hstate, keeps_composes.nil tcb⟩
  append := by
    intro a b c log log' hab hbc hstate
    obtain ⟨hstate', hfirst⟩ := hab hstate
    obtain ⟨hstate'', hsecond⟩ := hbc hstate'
    exact ⟨hstate'', keeps_composes.append hfirst hsecond⟩

theorem writeChunk_keeps (readings : Nat → Reading) (tcb : Tcb) (chunk : List U8) :
    Sending tcb (utcpOutput readings (writeChunk tcb chunk)).log
      (utcpOutput readings (writeChunk tcb chunk)).tcb := by
  intro hstate
  have hwrite : Keeps tcb [] (writeChunk tcb chunk) :=
    keeps_silent fun _ h =>
      ⟨h.acked, h.sent, h.small, h.below, h.timed, fun hopening => absurd hstate hopening⟩
  have hkeeps := keeps_composes.append hwrite (utcpOutput_keeps readings _)
  rw [List.nil_append] at hkeeps
  refine ⟨?_, hkeeps⟩
  rw [utcpOutput_state, writeChunk_state]
  exact hstate

theorem utcpSend_keeps (envs : Nat → Env) (bytes : List U8) (hstate : tcb.state = .established) :
    Keeps tcb (utcpSend envs tcb bytes).1.log (utcpSend envs tcb bytes).1.tcb :=
  (utcpSend_composes sending_composes (fun _ => writeChunk_keeps _) tcb bytes hstate).2

theorem takeBytes_same (tcb : Tcb) (n : Nat) : SameTiming tcb (takeBytes tcb n) := by
  obtain ⟨_, _, heq⟩ := takeBytes_eq tcb n
  rw [heq]
  exact ⟨rfl, rfl, rfl, rfl, rfl, rfl, Decidable.em _⟩

theorem read_keeps {out : Out} (h : ReadCases env tcb out) : Keeps tcb out.log out.tcb := by
  cases h with
  | update n hn =>
      have htake : Keeps tcb
          [.freeSpace (bufUsed (takeBytes tcb n)) (takeBytes tcb n).oooBytes]
          (setAcknow (takeBytes tcb n)) := by
        apply keeps_of_same
        · simp [segments]
        · exact (takeBytes_same tcb n).setAcknow
      exact keeps_composes.append htake (utcpOutput_keeps env.output _)
  | quiet n hn =>
      apply keeps_of_same
      · simp [segments]
      · exact takeBytes_same tcb n

theorem connect_keeps (env : Env) (ip : U32) (port : U16) (hstate : tcb.state = .closed) :
    Keeps tcb (utcpConnect env tcb ip port).log (utcpConnect env tcb ip port).tcb := by
  have hconnect : Keeps tcb []
      { tcb with dstIp := ip, dstPort := port, dstUdpPort := 1970, state := .synSent } := by
    apply keeps_silent
    intro sofar h
    obtain ⟨hidle, htail⟩ := h.idle (by simp [hstate])
    exact h.untimed h.acked h.sent rfl hidle fun _ => htail
  have hkeeps := keeps_composes.append hconnect (utcpOutput_keeps env.output _)
  rwa [List.nil_append] at hkeeps

/-- Endpoints that run any of the congestion-control modules. -/
def moduleEndpoints : TransitionSystem Endpoint Section where
  init e := ∃ (fresh : Endpoint) (ccOps : TcpCongestionOps),
    fresh.Fresh ∧ e = { fresh with tcb := { fresh.tcb with ccOps } }
  step := endpoints.step

theorem moduleEndpoints_next {e e' : Endpoint} {s : Section} (h : e.next s = some e') :
    moduleEndpoints.step e s e' := endpoints_next h

/-- No segment makes congestion control resend what is new or timed. -/
def CleanSections (e : Endpoint) : Section → Prop
  | .input env seg _ => CleanInput env e.tcb seg
  | _ => True

/-- The block `handle_received_data` works on, with the options of the segment
read. -/
def received (env : Env) (tcb : Tcb) (seg : TcpSegment) : Option Tcb :=
  match tcb.state with
  | .synRecv => (synRecvInput env tcb seg).map fun cc => processWindowOption env seg cc.tcb
  | .established => some (processWindowOption env seg tcb)
  | _ => none

/-- `handle_received_data` feeds `utcp_xmit_timer` from `t_rtt`. -/
def SamplesTicks (tcb : Tcb) (seg : TcpSegment) : Prop :=
  validAck tcb seg.hdr.thAck ∧ tcb.tsEnabled = false ∧ tcb.tRtt ≠ 0 ∧
    seqGt seg.hdr.thAck tcb.tRtseq

instance (tcb : Tcb) (seg : TcpSegment) : Decidable (SamplesTicks tcb seg) :=
  inferInstanceAs (Decidable (_ ∧ _))

/-- A byte whose acknowledgment is used as a sample was transmitted once. -/
def KarnValid (e : Endpoint) : Prop :=
  ∀ env seg tcb, received env e.tcb seg = some tcb → SamplesTicks tcb seg →
    transmissions e.history tcb.tRtseq = 1

theorem synRecvInput_log {cc : Out} (h : synRecvInput env tcb seg = some cc) : cc.log = [] := by
  unfold synRecvInput at h
  split at h
  · exact (init_same h).1
  · cases h
    rfl

theorem utcpInput_received {peer : Peer} (h : received env tcb seg = some tcb') :
    utcpInput env tcb seg peer =
      (handleAck env tcb' seg).map fun acked =>
        ⟨(handleData env acked.tcb seg).tcb, acked.log ++ (handleData env acked.tcb seg).log⟩ := by
  unfold received at h
  split at h
  · rename_i hstate
    obtain ⟨cc, hcc, rfl⟩ := Option.map_eq_some_iff.mp h
    have hlog := synRecvInput_log hcc
    simp only [utcpInput, hstate, hcc, handleReceivedData]
    cases hack : handleAck env (processWindowOption env seg cc.tcb) seg <;> simp [hack, hlog]
  · rename_i hstate
    cases h
    simp only [utcpInput, hstate, handleReceivedData]
    cases handleAck env (processWindowOption env seg tcb) seg <;> rfl
  · cases h

theorem measureRtt_ticks (hack : validAck tcb seg.hdr.thAck) (hplain : tcb.tsEnabled = false) :
    measureRtt env seg (acceptAck tcb seg.hdr) =
      if SamplesTicks tcb seg then
        ({ utcpXmitTimer (acceptAck tcb seg.hdr) ((tcb.tRtt - 1) * tickUs) with tRtt := 0 },
          (tcb.tRtt - 1) * tickUs)
      else (acceptAck tcb seg.hdr, 0) := by
  have hoff : (acceptAck tcb seg.hdr).tsEnabled = false := hplain
  rw [measureRtt, hoff, if_neg Bool.false_ne_true]
  by_cases hsamples : tcb.tRtt ≠ 0 ∧ seqGt seg.hdr.thAck tcb.tRtseq
  · rw [if_pos (show SamplesTicks tcb seg from ⟨hack, hplain, hsamples⟩)]
    exact if_pos hsamples
  · rw [if_neg fun h : SamplesTicks tcb seg => hsamples h.2.2]
    exact if_neg hsamples

/-- `SamplesTicks` is what `utcp_input` goes by: it hands the block on to the two
halves of `handle_received_data`, and where no timestamps are in use these take a
sample, from `t_rtt`, exactly there. -/
structure TakesSample (env : Env) (e : Endpoint) (seg : TcpSegment) (peer : Peer) (tcb : Tcb) :
    Prop where
  input : utcpInput env e.tcb seg peer =
    (handleAck env tcb seg).map fun acked =>
      ⟨(handleData env acked.tcb seg).tcb, acked.log ++ (handleData env acked.tcb seg).log⟩
  sample : validAck tcb seg.hdr.thAck → tcb.tsEnabled = false →
    measureRtt env seg (acceptAck tcb seg.hdr) =
      if SamplesTicks tcb seg then
        ({ utcpXmitTimer (acceptAck tcb seg.hdr) ((tcb.tRtt - 1) * tickUs) with tRtt := 0 },
          (tcb.tRtt - 1) * tickUs)
      else (acceptAck tcb seg.hdr, 0)

theorem fresh_timed {e : Endpoint} (h : moduleEndpoints.init e) : Timed e.tcb e.history := by
  have hzero : (0 : U32).toNat < 2 ^ 31 := by decide
  obtain ⟨_, _, ⟨_, _, rfl | rfl⟩, rfl⟩ := h
  · exact ⟨Nat.le_refl _, Nat.le_refl _, hzero, by simp [Endpoint.start],
      fun htiming => absurd rfl htiming, fun _ => ⟨rfl, rfl⟩⟩
  · exact ⟨Nat.le_refl _, Nat.le_refl _, hzero, by simp [Endpoint.start],
      fun htiming => absurd rfl htiming, fun _ => ⟨rfl, rfl⟩⟩

theorem run_keeps {e e' : Endpoint} {s : Section} {log : List Event} (hclean : CleanSections e s)
    (h : e.run s = some (e', log)) : Keeps e.tcb log e'.tcb ∧ e'.history = e.history ++ log := by
  obtain ⟨out, hcases, htcb, rfl, hhistory⟩ := run_cases h
  refine ⟨?_, hhistory⟩
  rw [htcb]
  cases hcases with
  | connect env ip port hstate => exact connect_keeps env ip port hstate
  | input env seg peer _ hinput => exact inputCases_keeps hclean hinput
  | slowtimo envs _ hslow =>
      refine utcpSlowtimo_composes keeps_composes (fun _ _ _ => tick_keeps) ?_ hslow
      exact keeps_of_same (by simp) (ticked_same e.tcb)
  | send envs bytes hstate => exact utcpSend_keeps envs bytes hstate
  | wake envs bytes hstate => exact utcpSend_keeps envs bytes hstate
  | read env len _ hstate hread => exact read_keeps hread

theorem reached_timed {e : Endpoint} (h : ReachedBy moduleEndpoints CleanSections e) :
    Short e.history → Timed e.tcb e.history := by
  apply @ReachedBy.invariant_under _ _ moduleEndpoints CleanSections
    (fun e => Timed e.tcb e.history) (fun e => Short e.history) _ _ _ e h
  · exact fun _ => fresh_timed
  · rintro e s e' ⟨log, hrun⟩ hshort
    obtain ⟨_, _, _, _, hhistory⟩ := run_cases hrun
    rw [hhistory] at hshort
    exact hshort.front
  · rintro e s e' - htimed hclean hshort ⟨log, hrun⟩
    obtain ⟨hkeeps, hhistory⟩ := run_keeps hclean hrun
    rw [hhistory] at hshort ⊢
    exact hkeeps e.history hshort htimed

theorem received_timing (h : received env tcb seg = some tcb') :
    tcb'.tRtseq = tcb.tRtseq ∧ (tcb'.tRtt = 0 ∨ tcb.tRtt ≠ 0) := by
  unfold received at h
  split at h
  · obtain ⟨cc, hcc, rfl⟩ := Option.map_eq_some_iff.mp h
    have hoptions := options_same env seg cc.tcb
    unfold synRecvInput at hcc
    split at hcc
    · obtain ⟨-, hsame⟩ := init_same hcc
      have hseq : cc.tcb.tRtseq = tcb.tRtseq := hsame.tRtseq
      refine ⟨hoptions.tRtseq.trans hseq, ?_⟩
      exact hoptions.tRtt.imp_right fun htiming => hsame.tRtt.resolve_left htiming
    · cases hcc
      exact ⟨hoptions.tRtseq, hoptions.tRtt⟩
  · cases h
    exact ⟨(options_same env seg tcb).tRtseq, (options_same env seg tcb).tRtt⟩
  · cases h

theorem reached_karnValid {e : Endpoint} (h : ReachedBy moduleEndpoints CleanSections e)
    (hshort : Short e.history) : KarnValid e := by
  intro env seg tcb hreceived hsamples
  obtain ⟨hseq, htRtt⟩ := received_timing hreceived
  have htiming : e.tcb.tRtt ≠ 0 := htRtt.resolve_left hsamples.2.2.1
  rw [hseq]
  exact ((reached_timed h hshort).timed htiming).2

/-- Samples of the round trip in ticks are of bytes transmitted once, in runs in
which no resent segment holds a new byte or one that stays timed. -/
theorem karn_valid {e : Endpoint} (h : ReachedBy moduleEndpoints CleanSections e)
    (hshort : Short e.history) :
    KarnValid e ∧ ∀ env seg peer tcb, received env e.tcb seg = some tcb →
      TakesSample env e seg peer tcb :=
  ⟨reached_karnValid h hshort, fun _ _ _ _ hreceived =>
    ⟨utcpInput_received hreceived, measureRtt_ticks⟩⟩

instance (log : List Event) : Decidable (Short log) :=
  inferInstanceAs (Decidable (∀ seg ∈ segments log, endOf seg < 2 ^ 31))

instance (tcb : Tcb) (seq : U32) : Decidable (CleanResend tcb seq) :=
  inferInstanceAs (Decidable (_ ∧ _))

instance (env : Env) (tcb : Tcb) (seg : TcpSegment) : Decidable (CleanInput env tcb seg) :=
  inferInstanceAs (Decidable (_ → _))

instance (e : Endpoint) (s : Section) : Decidable (CleanSections e s) :=
  match s with
  | .input env seg _ => inferInstanceAs (Decidable (CleanInput env e.tcb seg))
  | .connect .. | .slowtimo .. | .send .. | .wake .. | .read .. => .isTrue trivial

/-- A segment of a peer that uses no options. -/
def plainSegment (flags : U8) (ack : U32) : TcpSegment :=
  ⟨⟨0, 0, 7, ack, 0x50, flags, 65535, 0, 0⟩, []⟩

def plain (flags : U8) (ack : U32) : Section := .input (.still 0) (plainSegment flags ack) ⟨0, 0⟩

/-- A client with a congestion-control module. -/
def client (ccOps : TcpCongestionOps) : Endpoint :=
  .start { utcpBind utcpSocket 0 0 with ccOps }

theorem client_init (ccOps : TcpCongestionOps) : moduleEndpoints.init (client ccOps) :=
  ⟨.start (utcpBind utcpSocket 0 0), ccOps, ⟨0, 0, .inl rfl⟩, rfl⟩

/-- Open the connection, send a byte, and lose it. -/
def lossy : List Section :=
  [.connect (.still 0) 0 0, plain (thSyn ||| thAck) 1, .send (fun _ => .still 0) [5],
    plain thAck 1, plain thAck 1, plain thAck 1]

/-- The next segment is used as a sample of a byte that was sent `n` times. -/
def samplesSent (e : Endpoint) (ack : U32) (n : Nat) : Bool :=
  (received (.still 0) e.tcb (plainSegment thAck ack)).any fun tcb =>
    decide (SamplesTicks tcb (plainSegment thAck ack)) && transmissions e.history tcb.tRtseq == n

/-- New Reno ends the timing with the retransmission, and times the next byte. -/
theorem karn_valid_newReno :
    ∃ e tcb, ReachedBy moduleEndpoints CleanSections e ∧ e.tcb.ccOps = .newReno ∧
      (segments e.history).map payload = [[], [], [5], [5], [6]] ∧
      received (.still 0) e.tcb (plainSegment thAck 3) = some tcb ∧
      SamplesTicks tcb (plainSegment thAck 3) ∧ transmissions e.history tcb.tRtseq = 1 ∧
      TakesSample (.still 0) e (plainSegment thAck 3) ⟨0, 0⟩ tcb := by
  have hends : (runAll (guarded CleanSections Endpoint.next) (client .newReno)
      (lossy ++ [plain thAck 2, .send (fun _ => .still 0) [6]])).map (fun e =>
        (e.tcb.ccOps, (segments e.history).map payload, decide (Short e.history),
          samplesSent e 3 1)) = some (.newReno, [[], [], [5], [5], [6]], true, true) := by
    decide +kernel
  obtain ⟨e, hrun, hends⟩ := Option.map_eq_some_iff.mp hends
  simp only [Prod.mk.injEq, decide_eq_true_eq, samplesSent, Option.any_eq_true, Bool.and_eq_true] at hends
  obtain ⟨hops, hwire, hshort, tcb, hreceived, hsamples, -⟩ := hends
  have hreach : ReachedBy moduleEndpoints CleanSections e :=
    .runGuarded (fun _ _ h => h) (fun _ _ _ => moduleEndpoints_next) _ (.init (client_init .newReno)) hrun
  obtain ⟨hvalid, htakes⟩ := karn_valid hreach hshort
  exact ⟨e, tcb, hreach, hops, hwire, hreceived, hsamples, hvalid _ _ _ hreceived hsamples,
    htakes _ _ _ _ hreceived⟩

/-- The segments hold no timestamp option, as `process_window_option` reads them. -/
def NoTimestamps (_ : Endpoint) : Section → Prop
  | .input env seg _ => (processWindowOption env seg utcpSocket).tsEnabled = false
  | _ => True

instance (e : Endpoint) (s : Section) : Decidable (NoTimestamps e s) :=
  match s with
  | .input env seg _ =>
      inferInstanceAs (Decidable ((processWindowOption env seg utcpSocket).tsEnabled = false))
  | .connect .. | .slowtimo .. | .send .. | .wake .. | .read .. => .isTrue trivial

/-- Reno keeps on timing a byte that it retransmits. -/
theorem karn_invalid :
    ¬ ∀ e, ReachedBy moduleEndpoints NoTimestamps e → Short e.history → KarnValid e := by
  intro hvalid
  have hends : (runAll (guarded NoTimestamps Endpoint.next) (client .reno) lossy).map (fun e =>
      (decide (Short e.history), samplesSent e 2 2)) = some (true, true) := by
    decide +kernel
  obtain ⟨e, hrun, hends⟩ := Option.map_eq_some_iff.mp hends
  simp only [Prod.mk.injEq, decide_eq_true_eq, samplesSent, Option.any_eq_true, Bool.and_eq_true,
    beq_iff_eq] at hends
  obtain ⟨hshort, tcb, hreceived, hsamples, htwice⟩ := hends
  have hreach : ReachedBy moduleEndpoints NoTimestamps e :=
    .runGuarded (fun _ _ h => h) (fun _ _ _ => moduleEndpoints_next) _ (.init (client_init .reno)) hrun
  have honce := hvalid e hreach hshort _ _ _ hreceived hsamples
  omega

end Utcp.Karn
