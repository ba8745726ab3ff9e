import Utcp.Karn
import Utcp.Lifecycle
import Utcp.Reliable

/-!
The sequence variables of an endpoint against its stream, for the side that listens as
for the one that connects, whatever the peer sends.
-/

namespace Utcp.Alignment

open Traces
open SerialNumbers
open TransitionSystems
open Utcp.Tcp
open Utcp.Utils
open Utcp.Output
open Utcp.CongestionControl
open Utcp.Timers
open Utcp.Input
open Utcp.Api
open Utcp.Network
open Utcp.Steps
open Utcp.Sections
open Utcp.Frames
open Utcp.SendLoop
open Utcp.Opening
open Utcp.SectionCases
open Utcp.Sender
open Utcp.Lifecycle
open Utcp.Reliable
open Utcp.Karn

variable {In : TcpSegment → Prop} {Ex : U8 → Prop} {tcb tcb' : Tcb} {log : List Event}
  {e e' : Endpoint} {s : Section} {env : Env} {seg : TcpSegment} {out : Out} {written : List U8}

/-- A block in `TCP_ESTABLISHED` at some positions of its stream. -/
def Positioned (written : List U8) (tcb : Tcb) : Prop :=
  ∃ una nxt top, top < 2 ^ 31 - 1 ∧ Sending written una nxt top tcb

/-- Few bytes behind the SYN: those on the wire, or all that were written. -/
def Few (written : List U8) (log : List Event) : Prop :=
  Short log ∨ written.length < 2 ^ 31 - 1

theorem Few.front {written' : List U8} {log' : List Event} (h : Few written' (log ++ log'))
    (hle : written <+: written') : Few written log := by
  rcases h with hshort | hlen
  · exact .inl hshort.front
  · exact .inr (Nat.lt_of_le_of_lt hle.length_le hlen)

theorem Few.back {log' : List Event} (h : Few written (log ++ log')) : Few written log' :=
  h.imp_left Short.back

theorem outputStep_positioned (h : OutputStep tcb log tcb') (hfew : Few written log)
    (hp : Positioned written tcb) :
    Positioned written tcb' ∧ ∀ event ∈ log, EmitsParts written event := by
  obtain ⟨una, nxt, top, hsmall, hs⟩ := hp
  have hflags : tcpOutflags tcb.state = thAck := congrArg tcpOutflags hs.state
  cases h with
  | flags =>
      exact ⟨⟨una, nxt, top, hsmall, hs.same ⟨rfl, rfl, rfl, rfl, rfl, rfl, rfl, rfl⟩⟩, by simp⟩
  | delack =>
      exact ⟨⟨una, nxt, top, hsmall, hs.same ⟨rfl, rfl, rfl, rfl, rfl, rfl, rfl, rfl⟩⟩, by simp⟩
  | bare timeUs hlen hsyn =>
      rw [hflags]
      exact ⟨⟨una, nxt, top, hsmall, hs⟩, emitsParts_sent (partOf_ack ..)⟩
  | advance timeUs newSynFin hsyn hadvance =>
      obtain rfl : newSynFin = false := hsyn.symm.trans (noSynFin_established hs.state)
      have hnxt := hs.nxt_le
      have hlen : nxt + (outputLength tcb).toNat ≤ written.length := by
        have hle := hs.top_le
        have hbuffered := hs.outputBuffered hsmall
        have hbound := @outputLength_le_buffered tcb
        omega
      -- the segment is on the wire, and its bytes are written
      have hend : nxt + (outputLength tcb).toNat < 2 ^ 31 - 1 := by
        rcases hfew with hshort | hfew
        swap
        · omega
        have hwire := hshort _ (mem_segments.mpr ⟨.output, timeUs, List.mem_cons_of_mem _
          List.mem_cons_self⟩)
        have hconsumed : _ ≤ endOf _ := consumed_le_endOf timeUs tcb
        have hword := @toNat_seqOf nxt (by omega)
        rw [hs.sndNxt, hword] at hconsumed
        rw [hs.sndNxt] at hwire
        omega
      obtain ⟨tTimer, tRtt, tRtseq, heq⟩ := advanceSndNxt_eq tcb (outputLength tcb) false
      rw [consumed_data] at heq
      have hadvanced := hs.advance hsmall hlen hend tTimer tRtt tRtseq
      rw [heq, hflags, hs.sndNxt]
      rw [hs.sndNxt] at hadvanced
      refine ⟨⟨una, _, _, by omega, hadvanced⟩, emitsParts_sent ?_⟩
      exact hs.partOf timeUs hs.una_le hlen

theorem tcbStep_positioned (h : TcbStep In Ex tcb log tcb') (hfew : Few written log)
    (hp : Positioned written tcb) :
    Positioned written tcb' ∧ ∀ event ∈ log, EmitsParts written event := by
  obtain ⟨una, nxt, top, hsmall, hs⟩ := hp
  cases h with
  | output h => exact outputStep_positioned h hfew ⟨una, nxt, top, hsmall, hs⟩
  | receive _ h =>
      refine ⟨⟨una, nxt, top, hsmall, hs.same (receiveStep_sameSend h)⟩, ?_⟩
      cases h <;> simp [EmitsParts]
  | ack _ h =>
      cases h with
      | ack seg hseg hack =>
          obtain ⟨pos, hnew, hsent, hpos⟩ := hs.validAck hsmall hack
          exact ⟨⟨pos, _, top, hsmall, hs.acceptAck hsmall hnew hsent hpos⟩, by simp⟩
      | retransmit reading => exact ⟨⟨una, nxt, top, hsmall, hs⟩, hs.retransmit hsmall reading⟩
      | rearm env =>
          refine ⟨⟨una, nxt, top, hsmall, hs.same (ackStep_sameSend (.rearm tcb env))⟩, ?_⟩
          unfold rearmRexmt
          split
          · simp
          · dsimp only
            split <;> simp [EmitsParts]
      | options env seg =>
          exact ⟨⟨una, nxt, top, hsmall, hs.same (processWindowOption_sameSend ..)⟩, by simp⟩
      | sample rttUs =>
          exact ⟨⟨una, nxt, top, hsmall, hs.same (ackStep_sameSend (.sample tcb rttUs))⟩, by simp⟩
      | _ =>
          exact ⟨⟨una, nxt, top, hsmall, hs.same ⟨rfl, rfl, rfl, rfl, rfl, rfl, rfl, rfl⟩⟩, by simp⟩
  | timer h =>
      cases h with
      | rexmt env recover =>
          exact ⟨⟨una, una, top, hsmall, hs.expired env recover⟩, by simp [EmitsParts]⟩
      | other =>
          exact ⟨⟨una, nxt, top, hsmall, hs.same ⟨rfl, rfl, rfl, rfl, rfl, rfl, rfl, rfl⟩⟩,
            by simp [EmitsParts]⟩
      | _ =>
          exact ⟨⟨una, nxt, top, hsmall, hs.same ⟨rfl, rfl, rfl, rfl, rfl, rfl, rfl, rfl⟩⟩, by simp⟩
  | opening h =>
      -- the steps of the handshake start in other states
      have hstate := hs.state
      cases h with
      | connect ip port hclosed => exact absurd (hclosed.symm.trans hstate) (by decide)
      | syn env seg peer hseg hlisten => exact absurd (hlisten.symm.trans hstate) (by decide)
      | synAck env seg hseg hsent => exact absurd (hsent.symm.trans hstate) (by decide)
      | finalAck seg hseg hrecv => exact absurd (hrecv.symm.trans hstate) (by decide)

theorem endpointStep_positioned (h : EndpointStep In Ex e log e') (hfew : Few e'.written log)
    (hp : Positioned e.written e.tcb) :
    Positioned e'.written e'.tcb ∧ ∀ event ∈ log, EmitsParts e'.written event := by
  cases h with
  | tcb h => exact tcbStep_positioned h hfew hp
  | call => exact ⟨hp, by simp⟩
  | write n hstate hroom hn =>
      obtain ⟨una, nxt, top, hsmall, hs⟩ := hp
      refine ⟨⟨una, nxt, top, hsmall, hs.write ?_⟩, by simp⟩
      rw [List.length_take]
      omega
  | read n hstate hn =>
      obtain ⟨una, nxt, top, hsmall, hs⟩ := hp
      exact ⟨⟨una, nxt, top, hsmall, hs.same (takeBytes_sameSend ..)⟩, by simp⟩

theorem trace_written (h : Trace (EndpointStep In Ex) e log e') : e.written <+: e'.written :=
  h.invariant (I := fun e'' => e.written <+: e''.written)
    (fun _ _ _ hstep hle => hle.trans (endpointStep_written hstep)) List.prefix_rfl

/-- A stretch of steps in `TCP_ESTABLISHED` with few bytes. -/
theorem trace_positioned (h : Trace (EndpointStep In Ex) e log e') (hfew : Few e'.written log)
    (hp : Positioned e.written e.tcb) :
    Positioned e'.written e'.tcb ∧ ∀ event ∈ log, EmitsParts e'.written event := by
  induction h with
  | nil e => exact ⟨hp, by simp⟩
  | cons hstep hrest ih =>
      obtain ⟨hp', hlog⟩ := endpointStep_positioned hstep (hfew.front (trace_written hrest)) hp
      obtain ⟨hp'', hlog'⟩ := ih hfew.back hp'
      refine ⟨hp'', fun event hevent origin timeUs seg heq => ?_⟩
      rcases List.mem_append.mp hevent with hevent | hevent
      · exact (hlog event hevent origin timeUs seg heq).mono (trace_written hrest)
      · exact hlog' event hevent origin timeUs seg heq

/-- The sequence variables of a block in `TCP_SYN_RECV`. -/
structure Accepting (nxt top : U32) (tcb : Tcb) : Prop where
  state : tcb.state = .synRecv
  iss : tcb.iss = 0
  sndUna : tcb.sndUna = 0
  sndNxt : tcb.sndNxt = nxt
  sndMax : tcb.sndMax = top
  head : tcb.sendBufHead = 0
  tail : tcb.sendBufTail = 0

/-- A delayed ACK is pending where its timer runs. -/
def Tied (tcb : Tcb) : Prop := tcb.tfDelack = false → tcb.tTimer .delack = 0

/-- The SYN-ACK: it could not be sent yet, it is out, or its timer expired. -/
inductive SynAck (tcb : Tcb) : Prop
  | waiting (h : Accepting 0 0 tcb) (htied : Tied tcb)
  | sent (h : Accepting 1 1 tcb) (hacknow : tcb.tfAcknow = false)
      (hdelack : tcb.tTimer .delack = 0)
  | expired (h : Accepting 0 1 tcb)

variable {nxt top : U32}

theorem Accepting.same (h : Accepting nxt top tcb) (hsame : SameSend tcb tcb') :
    Accepting nxt top tcb' :=
  ⟨hsame.state.trans h.state, hsame.iss.trans h.iss, hsame.sndUna.trans h.sndUna,
    hsame.sndNxt.trans h.sndNxt, hsame.sndMax.trans h.sndMax, hsame.sendBufHead.trans h.head,
    hsame.sendBufTail.trans h.tail⟩

/-- A timeout takes `snd_nxt` back to the SYN-ACK. -/
theorem Accepting.expires (h : Accepting nxt top tcb) (env : Env) (recover : U32) :
    Accepting 0 top (expireRexmt env tcb recover) := by
  obtain ⟨_, _, heq⟩ := expireRexmt_eq env tcb recover
  rw [heq]
  exact ⟨h.state, h.iss, h.sndUna, h.sndUna, h.sndMax, h.head, h.tail⟩

theorem Accepting.notEstablished (h : Accepting nxt top tcb) : tcb.state ≠ .established := by
  rw [h.state]
  decide

theorem cancelDelack_sameSend (tcb : Tcb) :
    SameSend tcb (cancelDelack { tcb with tfAcknow := false }) := by
  unfold cancelDelack
  split <;> exact ⟨rfl, rfl, rfl, rfl, rfl, rfl, rfl, rfl⟩

theorem cancelDelack_idle (htied : Tied tcb) :
    (cancelDelack { tcb with tfAcknow := false }).tfAcknow = false ∧
      (cancelDelack { tcb with tfAcknow := false }).tTimer .delack = 0 := by
  unfold cancelDelack
  split
  · exact ⟨rfl, by simp [setTimer]⟩
  · rename_i hoff
    exact ⟨rfl, htied (Bool.eq_false_iff.mpr hoff)⟩

theorem partOf_zero (timeUs : U64) (tcb : Tcb) (flags : U8) :
    PartOf written (buildSegment timeUs tcb 0 flags 0) :=
  ⟨fun _ => rfl,
    .inl (List.eq_nil_of_length_eq_zero (payload_length_buildSegment _ _ _ _ 0 (by decide)))⟩

/-- Where the SYN-ACK has not gone out, `utcp_output` sends it. -/
theorem Accepting.output (h : Accepting 0 0 tcb) (htied : Tied tcb)
    (readings : Nat → Reading) :
    SynAck (utcpOutput readings tcb).tcb ∧
      ∀ event ∈ (utcpOutput readings tcb).log, EmitsParts [] event := by
  have hends := utcpOutput_ends readings h.notEstablished
  have hnew : sendingNewSynFin (tcpOutflags tcb.state) tcb = true := by
    rw [sendingNewSynFin, h.sndNxt, h.sndMax, h.state]
    decide
  have hcleared := h.same (cancelDelack_sameSend tcb)
  obtain ⟨hacknow, hdelack⟩ := cancelDelack_idle htied
  generalize utcpOutput readings tcb = out at hends ⊢
  cases hends with
  | quiet hsyn => exact absurd (hsyn.symm.trans hnew) (by decide)
  | failed halloc hcause => exact ⟨.waiting hcleared fun _ => hdelack, by simp⟩
  | bare hsyn => exact absurd (hsyn.symm.trans hnew) (by decide)
  | syn hsyn log hlog =>
      refine ⟨?_, emits_of_segments hlog ?_⟩
      · have hstill := @advanceSndNxt_other (cancelDelack { tcb with tfAcknow := false }) 0 true
          .delack (by decide)
        obtain ⟨_, _, _, heq⟩ :=
          advanceSndNxt_eq (cancelDelack { tcb with tfAcknow := false }) 0 true
        have hraised : nextSndMax (cancelDelack { tcb with tfAcknow := false })
            (0 + if true = true then 1 else 0) = 1 := by
          rw [nextSndMax, hcleared.sndNxt, hcleared.sndMax]
          decide
        dsimp only
        rw [heq] at hstill ⊢
        refine .sent ⟨hcleared.state, hcleared.iss, hcleared.sndUna, ?_, hraised, hcleared.head,
          hcleared.tail⟩ hacknow (hstill.trans hdelack)
        dsimp only
        rw [hcleared.sndNxt]
        decide
      · intro seg hseg
        rw [List.mem_singleton.mp hseg, h.sndNxt]
        exact partOf_zero _ _ _

theorem Accepting.validAck (h : Accepting 0 1 tcb) {ack : U32} (hack : validAck tcb ack = true) :
    ack = 1 := by
  rw [Input.validAck, h.sndUna, h.sndMax, Bool.and_eq_true, seqGt, seqLeq, decide_eq_true_eq,
    decide_eq_true_eq, ← Int.not_lt] at hack
  obtain ⟨hnew, hsent⟩ := hack
  obtain ⟨hpos, hhalf⟩ := (toInt_pos_iff _).mp hnew
  rw [sub_pos_iff_of_base hhalf (by decide)] at hsent
  have hzero : ack - 0 = ack := BitVec.sub_zero ack
  have hone : (1 - 0 : U32).toNat = 1 := by decide
  rw [hzero] at hpos hsent
  apply BitVec.eq_of_toNat_eq
  change ack.toNat = 1
  omega

/-- Segments after a timeout that neither acknowledge the SYN-ACK nor nothing. -/
def Late (seg : TcpSegment) : Prop :=
  seg.hdr.thAck ≠ 1 ∧ (hasFlag seg.hdr.thFlags thAck → seg.hdr.thAck ≠ 0)

theorem outputStep_expired (h : OutputStep tcb log tcb') (ha : Accepting 0 1 tcb) :
    Accepting 0 1 tcb' ∧ ∀ event ∈ log, EmitsParts written event := by
  cases h with
  | flags => exact ⟨ha.same ⟨rfl, rfl, rfl, rfl, rfl, rfl, rfl, rfl⟩, by simp⟩
  | delack => exact ⟨ha.same ⟨rfl, rfl, rfl, rfl, rfl, rfl, rfl, rfl⟩, by simp⟩
  | bare timeUs hlen hsyn =>
      rw [ha.sndNxt]
      exact ⟨ha, emitsParts_sent (partOf_zero ..)⟩
  | advance timeUs newSynFin hsyn hadvance =>
      have hnone : outputLength tcb = 0 := outputLength_opening ha.notEstablished
      have hold : sendingNewSynFin (tcpOutflags tcb.state) tcb = false := by
        rw [sendingNewSynFin, ha.sndNxt, ha.sndMax, ha.state]
        decide
      rw [hnone, ← hsyn, hold] at hadvance
      exact absurd hadvance (by decide)

theorem tcbStep_expired (h : TcbStep Late Ex tcb log tcb') (ha : Accepting 0 1 tcb) :
    Accepting 0 1 tcb' ∧ ∀ event ∈ log, EmitsParts written event := by
  cases h with
  | output h => exact outputStep_expired h ha
  | receive _ h =>
      refine ⟨ha.same (receiveStep_sameSend h), ?_⟩
      cases h <;> simp [EmitsParts]
  | ack _ h =>
      cases h with
      | ack seg hseg hack => exact absurd (ha.validAck hack) hseg.1
      | retransmit reading =>
          have hnone : utcpRetransmitSegment reading tcb tcb.sndUna = [] := by
            rw [utcpRetransmitSegment, if_pos ha.notEstablished]
          rw [hnone]
          exact ⟨ha, by simp⟩
      | rearm env =>
          refine ⟨ha.same (ackStep_sameSend (.rearm tcb env)), ?_⟩
          unfold rearmRexmt
          split
          · simp
          · dsimp only
            split <;> simp [EmitsParts]
      | options env seg => exact ⟨ha.same (processWindowOption_sameSend ..), by simp⟩
      | sample rttUs => exact ⟨ha.same (ackStep_sameSend (.sample tcb rttUs)), by simp⟩
      | _ => exact ⟨ha.same ⟨rfl, rfl, rfl, rfl, rfl, rfl, rfl, rfl⟩, by simp⟩
  | timer h =>
      cases h with
      | rexmt env recover =>
          exact ⟨ha.expires env recover, by simp [EmitsParts]⟩
      | other => exact ⟨ha.same ⟨rfl, rfl, rfl, rfl, rfl, rfl, rfl, rfl⟩, by simp [EmitsParts]⟩
      | _ => exact ⟨ha.same ⟨rfl, rfl, rfl, rfl, rfl, rfl, rfl, rfl⟩, by simp⟩
  | opening h =>
      have hstate := ha.state
      cases h with
      | connect ip port hclosed => exact absurd (hclosed.symm.trans hstate) (by decide)
      | syn env seg peer hseg hlisten => exact absurd (hlisten.symm.trans hstate) (by decide)
      | synAck env seg hseg hsent => exact absurd (hsent.symm.trans hstate) (by decide)
      | finalAck seg hseg hrecv hcompletes =>
          rw [completesHandshake, Bool.and_eq_true, beq_iff_eq, ha.sndNxt] at hcompletes
          exact absurd hcompletes.2 (hseg.2 hcompletes.1)

/-- A stretch of code that keeps the handshake in order, with no bytes written. -/
def Answers (tcb : Tcb) (log : List Event) (tcb' : Tcb) : Prop :=
  SynAck tcb → SynAck tcb' ∧ ∀ event ∈ log, EmitsParts [] event

theorem answers_composes : Composes Answers := by
  refine ⟨fun tcb h => ⟨h, by simp⟩, fun hab hbc ha => ?_⟩
  obtain ⟨hb, hlog⟩ := hab ha
  obtain ⟨hc, hlog'⟩ := hbc hb
  refine ⟨hc, fun event hevent => ?_⟩
  rcases List.mem_append.mp hevent with hevent | hevent
  · exact hlog event hevent
  · exact hlog' event hevent

theorem expired_output (readings : Nat → Reading) (h : Accepting 0 1 tcb) :
    SynAck (utcpOutput readings tcb).tcb ∧
      ∀ event ∈ (utcpOutput readings tcb).log, EmitsParts [] event := by
  obtain ⟨hexpired, hlog⟩ := (utcpOutput_trace readings tcb).events
    (I := Accepting 0 1) (G := EmitsParts []) (fun _ _ _ hstep ha => outputStep_expired hstep ha) h
  exact ⟨.expired hexpired, hlog⟩

theorem SynAck.same (h : SynAck tcb) (hsame : SameSend tcb tcb')
    (hacknow : tcb'.tfAcknow = tcb.tfAcknow) (hflag : tcb'.tfDelack = tcb.tfDelack)
    (hdelack : tcb'.tTimer .delack = tcb.tTimer .delack) : SynAck tcb' := by
  cases h with
  | waiting h htied =>
      exact .waiting (h.same hsame) fun hoff => hdelack.trans (htied (hflag.symm.trans hoff))
  | sent h hnone hoff => exact .sent (h.same hsame) (hacknow.trans hnone) (hdelack.trans hoff)
  | expired h => exact .expired (h.same hsame)

theorem setTimer_synAck (h : SynAck tcb) {timer : Timer} (hother : timer ≠ .delack) (ticks : U16) :
    SynAck (setTimer tcb timer ticks) :=
  h.same ⟨rfl, rfl, rfl, rfl, rfl, rfl, rfl, rfl⟩ rfl rfl (if_neg hother.symm)

theorem countDown_answers {timer : Timer} (hticks : 1 < (tcb.tTimer timer).toInt) (h : SynAck tcb) :
    SynAck (setTimer tcb timer (tcb.tTimer timer - 1)) := by
  by_cases hother : timer = .delack
  · subst hother
    have hrunning : tcb.tTimer .delack ≠ 0 := by
      intro hoff
      rw [hoff] at hticks
      exact absurd hticks (by decide)
    have hsame : SameSend tcb (setTimer tcb .delack (tcb.tTimer .delack - 1)) :=
      ⟨rfl, rfl, rfl, rfl, rfl, rfl, rfl, rfl⟩
    cases h with
    | waiting h htied => exact .waiting (h.same hsame) fun hoff => absurd (htied hoff) hrunning
    | sent h hacknow hoff => exact absurd hoff hrunning
    | expired h => exact .expired (h.same hsame)
  · exact setTimer_synAck h hother _

/-- Events before the output that are no segments. -/
theorem answered_after {first : List Event} (hfirst : segments first = [])
    (h : SynAck tcb ∧ ∀ event ∈ log, EmitsParts [] event) :
    SynAck tcb ∧ ∀ event ∈ first ++ log, EmitsParts [] event := by
  refine ⟨h.1, fun event hevent => ?_⟩
  rcases List.mem_append.mp hevent with hevent | hevent
  · exact emits_of_segments hfirst (by simp) event hevent
  · exact h.2 event hevent

theorem returned_after {first : List Event} {sent : Out} (hfirst : segments first = [])
    (h : SynAck sent.tcb ∧ ∀ event ∈ sent.log, EmitsParts [] event) :
    SynAck (Out.mk sent.tcb (first ++ sent.log)).tcb ∧
      ∀ event ∈ (Out.mk sent.tcb (first ++ sent.log)).log, EmitsParts [] event :=
  answered_after hfirst h

theorem tick_answers {timer : Timer} (htick : TickCases env tcb timer out) :
    Answers tcb out.log out.tcb := by
  intro h
  cases htick with
  | idle => exact ⟨h, by simp⟩
  | countDown timer hticks => exact ⟨countDown_answers hticks h, by simp⟩
  | rexmt recover hticks =>
      refine answered_after rfl ?_
      cases h with
      | waiting h htied =>
          refine (h.expires env recover).output ?_ env.output
          rw [Tied, expireRexmt_delack]
          obtain ⟨_, _, heq⟩ := expireRexmt_eq env tcb recover
          rw [heq]
          exact htied
      | sent h => exact expired_output env.output (h.expires env recover)
      | expired h => exact expired_output env.output (h.expires env recover)
  | delack hticks =>
      have hsame : SameSend tcb
          { setTimer tcb .delack 0 with tfDelack := false, tfAcknow := true } :=
        ⟨rfl, rfl, rfl, rfl, rfl, rfl, rfl, rfl⟩
      refine @answered_after _ _ [.expired .delack] rfl ?_
      cases h with
      | waiting h htied => exact (h.same hsame).output (fun _ => by simp [setTimer]) env.output
      | sent h hacknow hoff =>
          rw [hoff] at hticks
          exact absurd hticks (by decide)
      | expired h => exact expired_output env.output (h.same hsame)
  | other timer hticks hrexmt hdelack =>
      exact ⟨setTimer_synAck h hdelack 0, by simp [EmitsParts]⟩

theorem slowtimo_answers {envs : Timer → Env} (h : utcpSlowtimo envs tcb = some out) :
    Answers tcb out.log out.tcb := by
  refine utcpSlowtimo_composes answers_composes (fun _ _ _ htick => tick_answers htick) ?_ h
  exact fun h => ⟨h.same ⟨rfl, rfl, rfl, rfl, rfl, rfl, rfl, rfl⟩ rfl rfl rfl, by simp⟩

theorem scheduleAck_tied (tcb : Tcb) (gapFilled : Bool) : Tied (scheduleAck tcb gapFilled) := by
  unfold scheduleAck
  split
  · exact fun _ => by simp [setTimer]
  · exact fun hoff => absurd hoff (by simp [setTimer])

theorem scheduleAck_sameSend (tcb : Tcb) (gapFilled : Bool) :
    SameSend tcb (scheduleAck tcb gapFilled) := by
  unfold scheduleAck
  split <;> exact ⟨rfl, rfl, rfl, rfl, rfl, rfl, rfl, rfl⟩

theorem receiveTrace_sameSend (h : Trace (ReceiveStep In) tcb log tcb') : SameSend tcb tcb' := by
  induction h with
  | nil tcb => exact .refl tcb
  | cons hstep _ ih => exact (receiveStep_sameSend hstep).trans ih

theorem acceptInOrder_sameSend (tcb : Tcb) (data : List U8) :
    SameSend tcb (acceptInOrder tcb data).tcb := by
  have haccept : SameSend tcb (acceptBytes tcb data) := ⟨rfl, rfl, rfl, rfl, rfl, rfl, rfl, rfl⟩
  have hdrain : Trace (ReceiveStep fun _ => False) _ _ _ :=
    drainOooQueue_trace (acceptBytes tcb data).oooHead (acceptBytes tcb data)
  exact (haccept.trans (receiveTrace_sameSend hdrain)).trans (scheduleAck_sameSend _ _)

theorem data_answers (hdata : DataCases env tcb seg out) (h : Accepting 0 0 tcb) (htied : Tied tcb) :
    SynAck out.tcb ∧ ∀ event ∈ out.log, EmitsParts [] event := by
  have hacknow : ∀ t : Tcb, SameSend t (setAcknow t) :=
    fun _ => ⟨rfl, rfl, rfl, rfl, rfl, rfl, rfl, rfl⟩
  cases hdata with
  | bare => exact h.output htied env.output
  | repeated => exact (h.same (hacknow tcb)).output htied env.output
  | accepted data =>
      have hdrain : Trace (ReceiveStep fun _ => False) _ _ _ :=
        drainOooQueue_trace (acceptBytes tcb data).oooHead (acceptBytes tcb data)
      have hdrained := Acknowledging.receiveTrace_quiet hdrain
      have hquiet : segments (acceptInOrder tcb data).log = [] := hdrained
      have hout := (h.same (acceptInOrder_sameSend tcb data)).output
        (scheduleAck_tied _ _) env.output
      exact @answered_after _ _ (_ :: (acceptInOrder tcb data).log) hquiet hout
  | full => exact ⟨.waiting h htied, by simp [EmitsParts]⟩
  | early seqNum data hcarries =>
      have hinsert : Trace (ReceiveStep fun _ => True) tcb _ _ :=
        insertOooSegment_trace env trivial hcarries
      obtain ⟨_, _, heq⟩ := Receiver.insertOooSegment_eq env tcb seqNum data
      have htied' : Tied (setAcknow (insertOooSegment env tcb seqNum data).tcb) := by
        rw [heq]
        exact htied
      have hsame := (receiveTrace_sameSend hinsert).trans (hacknow _)
      exact returned_after (Acknowledging.receiveTrace_quiet hinsert)
        ((h.same hsame).output htied' env.output)

theorem waiting_answers (h : Accepting 0 0 tcb) (htied : Tied tcb)
    (hout : handleReceivedData env tcb seg = some out) :
    SynAck out.tcb ∧ ∀ event ∈ out.log, EmitsParts [] event := by
  obtain ⟨acked, hacked, hout⟩ := Option.bind_eq_some_iff.mp hout
  cases hout
  have hlearned := h.same (processWindowOption_sameSend env seg tcb)
  have htied' : Tied (processWindowOption env seg tcb) := by
    obtain ⟨_, _, _, _, heq⟩ := processWindowOption_eq env seg tcb
    rw [heq]
    exact htied
  generalize processWindowOption env seg tcb = learned at hacked hlearned htied'
  have hall : learned.sndUna = learned.sndMax := hlearned.sndUna.trans hlearned.sndMax.symm
  -- nothing was sent: no segment acknowledges anything, and none counts as a duplicate
  have hkept : Accepting 0 0 acked.tcb ∧ Tied acked.tcb ∧ acked.log = [] := by
    cases handleAck_cases hacked with
    | acked cc hack =>
        rw [validAck, hall, seqGt_eq_not, Bool.and_eq_true, Bool.not_eq_true'] at hack
        rw [hack.1] at hack
        exact absurd hack.2 (by decide)
    | window =>
        exact ⟨hlearned.same ⟨rfl, rfl, rfl, rfl, rfl, rfl, rfl, rfl⟩, htied', rfl⟩
    | duplicate _ _ _ _ _ _ hflight => exact absurd hall hflight
    | ignored => exact ⟨hlearned, htied', rfl⟩
  obtain ⟨haccepting, hflags, hsilent⟩ := hkept
  rw [hsilent, List.nil_append]
  exact data_answers handleData_cases haccepting hflags

/-- The segments of a peer that takes part in one handshake: it acknowledges the SYN, and
before that it sends nothing that would bring out a second SYN-ACK, or acknowledge the
first one after its timer expired. -/
def Prompt (e : Endpoint) : Section → Prop
  | .input _ seg _ =>
      (e.tcb.state = .synSent → isAwaitedSynAck e.tcb seg.hdr → seg.hdr.thAck = e.tcb.iss + 1) ∧
      (e.tcb.state = .synRecv →
        if completesHandshake e.tcb seg.hdr then seg.hdr.thAck = e.tcb.iss + 1
        else (e.tcb.sndNxt = e.tcb.sndMax → e.tcb.sndMax = e.tcb.iss) ∧
          validAck e.tcb seg.hdr.thAck = false)
  | _ => True

/-- Where an endpoint stands, with nothing but parts of its stream on the wire. -/
inductive Stands (e : Endpoint) : Prop
  | idle (h : Idle e.tcb) (hwritten : e.written = [])
  | opening (h : Opening e.tcb) (hwritten : e.written = [])
  | listening (h : Listening e.tcb) (hwritten : e.written = [])
  | synAck (h : SynAck e.tcb) (hwritten : e.written = [])
  | established (h : Positioned e.written e.tcb)

theorem finalAck_positioned {cc rest : Out} (h : Accepting 1 1 tcb) (hack : seg.hdr.thAck = 1)
    (hcc : congControl env (acceptFinalAck tcb seg) .init = some cc)
    (hrest : handleReceivedData env cc.tcb seg = some rest) :
    Positioned [] rest.tcb ∧ ∀ event ∈ cc.log ++ rest.log, EmitsParts [] event := by
  obtain ⟨recover, hinit⟩ := congControl_init env (acceptFinalAck tcb seg)
  rw [hinit] at hcc
  obtain ⟨hsilent, hsends⟩ : cc.log = [] ∧ Sending [] 0 0 0 cc.tcb := by
    cases hcc
    exact ⟨rfl, rfl, h.iss, hack, h.sndNxt, h.sndMax, h.head, h.tail, Nat.le_refl 0,
      Nat.le_refl 0, Nat.le_refl 0, Nat.zero_le _, RingMemory.holds_nil⟩
  have htrace : Trace (TcbStep (fun _ => True) fun _ => True) cc.tcb rest.log rest.tcb :=
    handleReceivedData_trace (.inr hsends.state) trivial hrest
  have hlifted := lift_trace htrace ⟨cc.tcb, [], [], [], []⟩ rfl
  have hnone : ([] : List U8).length < 2 ^ 31 - 1 := by decide
  rw [hsilent, List.nil_append]
  exact trace_positioned hlifted (.inr hnone) ⟨0, 0, 0, by decide, hsends⟩

/-- What a section leaves behind. -/
def Lands (e' : Endpoint) (log : List Event) : Prop :=
  Stands e' ∧ ∀ event ∈ log, EmitsParts e'.written event

theorem lands_synAck (hwritten : e'.written = [])
    (h : SynAck e'.tcb ∧ ∀ event ∈ log, EmitsParts [] event) : Lands e' log := by
  rw [Lands, hwritten]
  exact ⟨.synAck h.1 hwritten, h.2⟩

/-- A segment after the timeout that does not acknowledge the SYN-ACK. -/
theorem expired_received (h : Accepting 0 1 tcb) (hnot : completesHandshake tcb seg.hdr = false)
    (hack : validAck tcb seg.hdr.thAck = false) (hrest : handleReceivedData env tcb seg = some out) :
    SynAck out.tcb ∧ ∀ event ∈ out.log, EmitsParts [] event := by
  have hlate : Late seg := by
    refine ⟨?_, fun hflag hzero => ?_⟩
    · intro hone
      rw [validAck, h.sndUna, h.sndMax, hone] at hack
      exact absurd hack (by decide)
    · rw [completesHandshake, hflag, h.sndNxt, hzero] at hnot
      exact absurd hnot (by decide)
  have htrace : Trace (TcbStep Late fun _ => True) tcb out.log out.tcb :=
    handleReceivedData_trace (.inl h.state) hlate hrest
  obtain ⟨hexpired, hlog⟩ := htrace.events (I := Accepting 0 1) (G := EmitsParts [])
    (fun _ _ _ hstep ha => tcbStep_expired hstep ha) h
  exact ⟨.expired hexpired, hlog⟩

theorem synAck_lands (h : SynAck e.tcb) (hwritten : e.written = []) (hprompt : Prompt e s)
    (hrun : e.run s = some (e', log)) : Lands e' log := by
  have hstate : e.tcb.state = .synRecv := by
    cases h with
    | waiting h => exact h.state
    | sent h => exact h.state
    | expired h => exact h.state
  have hother : e.tcb.state ≠ .established := by
    rw [hstate]
    decide
  have hwritten' := (run_unopened hother hrun).trans hwritten
  obtain ⟨out, hout, htcb, hlog, -⟩ := run_cases hrun
  subst hlog
  cases hout with
  | connect env ip port hclosed => exact absurd (hclosed.symm.trans hstate) (by decide)
  | input env seg peer out hin =>
      have hprompt := hprompt.2 hstate
      cases hin with
      | syn hlisten => exact absurd (hlisten.symm.trans hstate) (by decide)
      | synAck cc hsent => exact absurd (hsent.symm.trans hstate) (by decide)
      | finalAck cc rest hrecv hcompletes hcc hrest =>
          rw [if_pos hcompletes] at hprompt
          have hnxt : seg.hdr.thAck = e.tcb.sndNxt := by
            rw [completesHandshake, Bool.and_eq_true, beq_iff_eq] at hcompletes
            exact hcompletes.2
          have hsent : Accepting 1 1 e.tcb := by
            cases h with
            | sent h => exact h
            | waiting h | expired h =>
                rw [h.iss, hnxt, h.sndNxt] at hprompt
                exact absurd hprompt (by decide)
          have hpositioned :=
            finalAck_positioned hsent (hnxt.trans hsent.sndNxt) hcc hrest
          rw [Lands, hwritten']
          exact ⟨.established (by rw [hwritten', htcb]; exact hpositioned.1), hpositioned.2⟩
      | received _ hreceiving hnot hrest =>
          have hnot := hnot hstate
          rw [hnot, if_neg (by decide)] at hprompt
          apply lands_synAck hwritten'
          rw [htcb]
          cases h with
          | waiting h htied => exact waiting_answers h htied hrest
          | sent h =>
              have hsecond := hprompt.1 (h.sndNxt.trans h.sndMax.symm)
              rw [h.sndMax, h.iss] at hsecond
              exact absurd hsecond (by decide)
          | expired h => exact expired_received h hnot hprompt.2 hrest
      | ignored hnot => exact absurd (.inl hstate) hnot
  | slowtimo envs out hslow =>
      apply lands_synAck hwritten'
      rw [htcb]
      exact slowtimo_answers hslow h
  | send envs bytes hest => exact absurd hest hother
  | wake envs bytes hest => exact absurd hest hother
  | read env len out hest => exact absurd hest hother

theorem acceptSyn_accepting (h : Listening tcb) (env : Env) (seg : TcpSegment) (peer : Peer) :
    Accepting 0 0 (acceptSyn env tcb seg peer) ∧ Tied (acceptSyn env tcb seg peer) := by
  obtain ⟨ip, port, tIdle, rfl⟩ := h
  rw [acceptSyn]
  obtain ⟨_, _, _, _, heq⟩ := processWindowOption_eq env seg
    { utcpListen (utcpBind utcpSocket ip port) with tIdle }
  rw [heq]
  exact ⟨⟨rfl, rfl, rfl, rfl, rfl, rfl, rfl⟩, fun _ => rfl⟩

theorem Opening.lands (h : Opening e.tcb) (hwritten : e.written = []) (hprompt : Prompt e s)
    (hrun : e.run s = some (e', log)) : Lands e' log := by
  have hwritten' := (run_unopened h.notEstablished hrun).trans hwritten
  obtain ⟨out, hout, htcb, hlog, -⟩ := run_cases hrun
  subst hlog
  rw [Lands, hwritten']
  cases hout with
  | input env seg peer out hin =>
      cases hin with
      | synAck cc hsent hawaited hcc =>
          have hone := hprompt.1 hsent hawaited
          have hack : seg.hdr.thAck ≠ 0 := by
            rw [hone, h.iss]
            decide
          obtain ⟨⟨una, nxt, top, -, hs⟩, hemits⟩ := h.synAck env hawaited hack hcc
          have htop : top ≤ 0 := hs.top_le
          refine ⟨.established ?_, hemits⟩
          rw [hwritten', htcb]
          exact ⟨una, nxt, top, by omega, hs⟩
      | ignored => exact ⟨.opening (htcb ▸ h) hwritten', by simp⟩
      | syn hother => exact absurd (hother.symm.trans h.state) (by decide)
      | finalAck cc rest hother => exact absurd (hother.symm.trans h.state) (by decide)
      | received _ hreceiving =>
          rcases hreceiving with hother | hother <;>
            exact absurd (hother.symm.trans h.state) (by decide)
  | slowtimo envs out hslow =>
      obtain ⟨hopening, hquiet⟩ := h.slowtimo hslow
      exact ⟨.opening (htcb ▸ hopening) hwritten', emits_of_segments hquiet (by simp)⟩
  | connect env ip port hother => exact absurd (hother.symm.trans h.state) (by decide)
  | send envs bytes hother => exact absurd (hother.symm.trans h.state) (by decide)
  | wake envs bytes hother => exact absurd (hother.symm.trans h.state) (by decide)
  | read env len out hother => exact absurd (hother.symm.trans h.state) (by decide)

theorem run_lands (h : Stands e) (hprompt : Prompt e s) (hfew : Few e'.written log)
    (hrun : e.run s = some (e', log)) : Lands e' log := by
  cases h with
  | idle h hwritten =>
      have hother : e.tcb.state ≠ .established := by
        rw [h.state]
        decide
      have hwritten' := (run_unopened hother hrun).trans hwritten
      obtain ⟨out, hout, htcb, hlog, -⟩ := run_cases hrun
      subst hlog
      rw [Lands, hwritten']
      rcases closed_cases h.state hout with ⟨env, ip, port, rfl⟩ | rfl
      · obtain ⟨hopening, hemits⟩ := @Idle.connect _ [] h env ip port
        exact ⟨.opening (htcb ▸ hopening) hwritten', hemits⟩
      · exact ⟨.idle (htcb ▸ h) hwritten', by simp⟩
  | opening h hwritten => exact Opening.lands h hwritten hprompt hrun
  | listening h hwritten =>
      have hother : e.tcb.state ≠ .established := by
        rw [h.state]
        decide
      have hwritten' := (run_unopened hother hrun).trans hwritten
      obtain ⟨out, hout, htcb, hlog, -⟩ := run_cases hrun
      subst hlog
      rcases listen_cases h.state hout with ⟨env, seg, peer, -, -, rfl⟩ | rfl | ⟨envs, hslow⟩
      · obtain ⟨haccepting, htied⟩ := acceptSyn_accepting h env seg peer
        apply lands_synAck hwritten'
        rw [htcb]
        exact haccepting.output htied env.output
      · rw [Lands, hwritten']
        exact ⟨.listening (htcb ▸ h) hwritten', by simp⟩
      · obtain ⟨hlistening, hquiet⟩ := h.slowtimo hslow
        rw [Lands, hwritten', hquiet]
        exact ⟨.listening (htcb ▸ hlistening) hwritten', by simp⟩
  | synAck h hwritten => exact synAck_lands h hwritten hprompt hrun
  | established h =>
      have htrace : Trace (EndpointStep (fun _ => True) fun _ => True) e log e' :=
        run_trace (fun _ _ _ _ => trivial) (fun _ _ _ => trivial) hrun
      obtain ⟨hpositioned, hemits⟩ := trace_positioned htrace hfew h
      exact ⟨.established hpositioned, hemits⟩

/-- Every segment that was sent is a part of the stream. -/
def SentParts (e : Endpoint) : Prop := ∀ seg ∈ segments e.history, PartOf e.written seg

theorem reached_stands (h : ReachedBy endpoints Prompt e) :
    Few e.written e.history → Stands e ∧ SentParts e := by
  apply @ReachedBy.invariant_under _ _ endpoints Prompt (fun e => Stands e ∧ SentParts e)
    (fun e => Few e.written e.history)
  · rintro e ⟨ip, port, rfl | rfl⟩
    · refine ⟨.idle ⟨rfl, rfl, rfl, rfl, rfl, rfl, rfl, rfl, fun _ => rfl⟩ rfl, ?_⟩
      exact fun seg hseg => absurd hseg List.not_mem_nil
    · refine ⟨.listening ⟨ip, port, 0, rfl⟩ rfl, ?_⟩
      exact fun seg hseg => absurd hseg List.not_mem_nil
  · rintro e s e' ⟨log, hrun⟩ hfew
    obtain ⟨out, -, -, -, hhistory⟩ := run_cases hrun
    rw [hhistory] at hfew
    exact hfew.front (run_written hrun)
  · rintro e s e' - ⟨hstands, hparts⟩ hprompt hfew ⟨log, hrun⟩
    obtain ⟨out, -, -, -, hhistory⟩ := run_cases hrun
    rw [hhistory] at hfew
    obtain ⟨hstands', hemits⟩ := run_lands hstands hprompt hfew.back hrun
    refine ⟨hstands', fun seg hseg => ?_⟩
    rw [hhistory, segments_append] at hseg
    rcases List.mem_append.mp hseg with hseg | hseg
    · exact (hparts seg hseg).mono (run_written hrun)
    · obtain ⟨origin, timeUs, hmem⟩ := mem_segments.mp hseg
      exact hemits _ hmem origin timeUs seg rfl
  · exact h

theorem SynAck.one (h : SynAck tcb) :
    (tcb.sndMax - tcb.iss).toNat ≤ 1 ∧ tcb.sendBufHead = 0 := by
  cases h with
  | waiting h | sent h | expired h =>
      rw [h.sndMax, h.iss]
      exact ⟨by decide, h.head⟩

theorem Opening.one (h : Opening tcb) : (tcb.sndMax - tcb.iss).toNat ≤ 1 ∧ tcb.sendBufHead = 0 := by
  rw [h.iss]
  rcases h.syn with ⟨-, hmax, -⟩ | ⟨hmax, -⟩
  · rw [hmax]
    exact ⟨by decide, h.head⟩
  · rw [hmax]
    exact ⟨by decide, h.head⟩

theorem Stands.positioned (h : Stands e) (hstate : e.tcb.state = .established) :
    Positioned e.written e.tcb := by
  cases h with
  | idle h => exact absurd (h.state.symm.trans hstate) (by decide)
  | opening h => exact absurd (h.state.symm.trans hstate) (by decide)
  | listening h => exact absurd (h.state.symm.trans hstate) (by decide)
  | synAck h =>
      cases h with
      | waiting h | sent h | expired h => exact absurd (h.state.symm.trans hstate) (by decide)
  | established h => exact h

theorem Stands.unwritten (h : Stands e) (hnot : e.tcb.state ≠ .established) : e.written = [] := by
  cases h with
  | idle _ hwritten => exact hwritten
  | opening _ hwritten => exact hwritten
  | listening _ hwritten => exact hwritten
  | synAck _ hwritten => exact hwritten
  | established hp =>
      obtain ⟨una, nxt, top, -, hs⟩ := hp
      exact absurd hs.state hnot

theorem Stands.one (h : Stands e) (hstate : e.tcb.state = .synSent ∨ e.tcb.state = .synRecv) :
    (e.tcb.sndMax - e.tcb.iss).toNat ≤ 1 ∧ e.tcb.sendBufHead = 0 := by
  have hother : ∀ state, e.tcb.state = state → state = .synSent ∨ state = .synRecv := by
    rintro _ rfl
    exact hstate
  cases h with
  | idle h => exact absurd (hother _ h.state) (by decide)
  | opening h => exact Opening.one h
  | listening h => exact absurd (hother _ h.state) (by decide)
  | synAck h => exact h.one
  | established h =>
      obtain ⟨una, nxt, top, -, hs⟩ := h
      exact absurd (hother _ hs.state) (by decide)

/-- The SYN takes one sequence number, and from then on the sequence variables and the
ring are in step, at both ends of the connection. -/
theorem stream_aligned (h : ReachedBy endpoints Prompt e) (hshort : Short e.history) :
    (e.tcb.state = .synSent ∨ e.tcb.state = .synRecv →
      (e.tcb.sndMax - e.tcb.iss).toNat ≤ 1 ∧ e.tcb.sendBufHead = 0) ∧
    (e.tcb.state = .established →
      Aligned e ∧ e.tcb.sendBufHead = e.tcb.sndUna - e.tcb.iss - 1 ∧
        e.tcb.sendBufTail - e.tcb.sendBufHead ≤ sendBufSize) := by
  obtain ⟨hstands, -⟩ := reached_stands h (.inl hshort)
  refine ⟨hstands.one, fun hstate => ?_⟩
  obtain ⟨una, nxt, top, hsmall, hs⟩ := hstands.positioned hstate
  have hroom := hs.room
  have hlen := hs.written_lt hsmall
  have huna := hs.una_le
  have hnxt := hs.nxt_le
  have htop := hs.top_le
  refine ⟨aligned_of_sending hs hsmall, ?_, ?_⟩
  · rw [hs.head, hs.sndUna, hs.iss, seqOf_sub]
  · rw [BitVec.le_def, hs.tail, hs.head]
    have hheld := @toNat_ofNat_sub_ofNat 32 0#32 e.written.length una (by omega) (by omega)
    rw [BitVec.zero_add, BitVec.zero_add] at hheld
    omega

/-- What both functions that send compute as the bytes that are written and not sent. -/
theorem buffered_exact (h : ReachedBy endpoints Prompt e) (hshort : Short e.history)
    (hstate : e.tcb.state = .established) :
    outputBuffered e.tcb = e.tcb.sendBufTail - (e.tcb.sndNxt - e.tcb.iss - 1) ∧
      retransmitBuffered e.tcb e.tcb.sndNxt = e.tcb.sendBufTail - (e.tcb.sndNxt - e.tcb.iss - 1) ∧
      retransmitBuffered e.tcb e.tcb.sndUna = e.tcb.sendBufTail - (e.tcb.sndUna - e.tcb.iss - 1) ∧
      (e.tcb.sendBufTail - (e.tcb.sndNxt - e.tcb.iss - 1)).toNat =
        e.written.length - offsetOf e.tcb e.tcb.sndNxt ∧
      ∀ seg ∈ segments e.history, PartOf e.written seg := by
  obtain ⟨hstands, hparts⟩ := reached_stands h (.inl hshort)
  obtain ⟨una, nxt, top, hsmall, hs⟩ := hstands.positioned hstate
  have hnxt := hs.unsent hsmall hs.nxt_le
  have huna := hs.unsent hsmall (Nat.le_trans hs.una_le hs.nxt_le)
  have hle := hs.nxt_le
  refine ⟨?_, ?_, ?_, ?_, hparts⟩
  · apply BitVec.eq_of_toNat_eq
    rw [hs.outputBuffered hsmall, hs.sndNxt, hnxt]
  · apply BitVec.eq_of_toNat_eq
    rw [hs.sndNxt, hs.buffered_seqOf hsmall hs.nxt_le, hnxt]
  · apply BitVec.eq_of_toNat_eq
    rw [hs.retransmitBuffered hsmall, hs.sndUna, huna]
  · rw [hs.sndNxt, hnxt, offsetOf_seqOf hs.iss (by omega)]

instance (e : Endpoint) (s : Section) : Decidable (Prompt e s) :=
  match s with
  | .input _ _ _ => inferInstanceAs (Decidable (_ ∧ _))
  | .connect .. | .slowtimo .. | .send .. | .wake .. | .read .. => .isTrue trivial

/-- A server sends three bytes; the first is acknowledged, and the timer expires. -/
def served : List Section :=
  [plain thSyn 0, plain thAck 1, .send (fun _ => .still 0) [65],
    .send (fun _ => .still 0) [66, 67], plain thAck 2] ++
    List.replicate 100 (.slowtimo fun _ => .still 0)

theorem served_reached :
    ∃ e, ReachedBy endpoints Prompt e ∧ Short e.history ∧ e.tcb.state = .established ∧
      e.written = [65, 66, 67] ∧ e.tcb.iss = 0 ∧ e.tcb.sndUna = 2 ∧
      e.tcb.sndNxt = 4 ∧ .expired .rexmt ∈ e.history := by
  have hends : (runAll (guarded Prompt Endpoint.next)
      (.start (utcpListen (utcpBind utcpSocket 0 0))) served).map (fun e =>
        decide (Short e.history ∧ e.tcb.state = .established ∧ e.written = [65, 66, 67] ∧
          e.tcb.iss = 0 ∧ e.tcb.sndUna = 2 ∧ e.tcb.sndNxt = 4 ∧ .expired .rexmt ∈ e.history)) =
      some true := by
    decide +kernel
  obtain ⟨e, hrun, hends⟩ := Option.map_eq_some_iff.mp hends
  have hreach : ReachedBy endpoints Prompt e :=
    .runGuarded (fun _ _ h => h) (fun _ _ _ => endpoints_next) _ (.init ⟨0, 0, .inr rfl⟩) hrun
  exact ⟨e, hreach, of_decide_eq_true hends⟩

theorem stream_aligned_served :
    ∃ e, ReachedBy endpoints Prompt e ∧ e.written = [65, 66, 67] ∧ e.tcb.sndUna = 2 ∧
      .expired .rexmt ∈ e.history ∧ Aligned e ∧ e.tcb.sendBufHead = 1 ∧
      e.tcb.sendBufTail - e.tcb.sendBufHead ≤ sendBufSize := by
  obtain ⟨e, hreach, hshort, hstate, hwritten, hiss, huna, -, hexpired⟩ := served_reached
  obtain ⟨haligned, hhead, hroom⟩ := (stream_aligned hreach hshort).2 hstate
  rw [huna, hiss] at hhead
  exact ⟨e, hreach, hwritten, huna, hexpired, haligned, hhead, hroom⟩

theorem buffered_exact_served :
    ∃ e, ReachedBy endpoints Prompt e ∧ e.written = [65, 66, 67] ∧ .expired .rexmt ∈ e.history ∧
      outputBuffered e.tcb = e.tcb.sendBufTail - (e.tcb.sndNxt - e.tcb.iss - 1) ∧
      retransmitBuffered e.tcb e.tcb.sndUna = e.tcb.sendBufTail - 1 ∧
      ∀ seg ∈ segments e.history, PartOf [65, 66, 67] seg := by
  obtain ⟨e, hreach, hshort, hstate, hwritten, hiss, huna, -, hexpired⟩ := served_reached
  obtain ⟨hout, -, hresend, -, hparts⟩ := buffered_exact hreach hshort hstate
  rw [hwritten] at hparts
  have hone : e.tcb.sndUna - e.tcb.iss - 1 = 1 := by
    rw [huna, hiss]
    decide
  rw [hone] at hresend
  exact ⟨e, hreach, hwritten, hexpired, hout, hresend, hparts⟩

/-- A duplicate of the SYN brings out a second SYN-ACK with a number of its own. -/
theorem second_synAck :
    ¬ ∀ n, Reachable network n → n.server.tcb.state = .synRecv →
      (n.server.tcb.sndMax - n.server.tcb.iss).toNat ≤ 1 := by
  intro hone
  have hrun : (runAll Net.step Net.start
      [.run .client (.connect (.still 5) 2 20), .duplicate .server 0,
        .deliver .server (.still 6) 0, .deliver .server (.still 7) 0]).map (fun n =>
      decide (n.server.tcb.state = .synRecv ∧
        (n.server.tcb.sndMax - n.server.tcb.iss).toNat = 2)) = some true := by
    decide +kernel
  obtain ⟨n, hn, hcheck⟩ := Option.map_eq_some_iff.mp hrun
  obtain ⟨hstate, htwo⟩ := of_decide_eq_true hcheck
  have hbound := hone n (reachable_runAll hn) hstate
  omega

end Utcp.Alignment
