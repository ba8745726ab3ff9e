import Utcp.Frames
import Utcp.Network
import Utcp.SendLoop

/-!
The bytes that go on the wire a second time: what `utcp_retransmit_segment`
sends when congestion control asks for it.
-/

namespace Utcp.Retransmission

open TransitionSystems
open Traces
open SerialNumbers
open Utcp.Tcp
open Utcp.Utils
open Utcp.Output
open Utcp.CongestionControl
open Utcp.Timers
open Utcp.Input
open Utcp.Api
open Utcp.Network
open Utcp.Steps
open Utcp.Sections
open Utcp.Frames
open Utcp.SendLoop

variable {In : TcpSegment → Prop} {Ex : U8 → Prop} {tcb tcb' : Tcb} {log : List Event}

/-- How many bytes the application has written from `snd_una` on. -/
def writtenFrom (tcb : Tcb) : Nat :=
  if tcb.sndUna > tcb.iss then tcb.sendBufTail.toNat - (tcb.sndUna - tcb.iss - 1).toNat
  else tcb.sendBufTail.toNat

/-- A full segment is outstanding, or everything written is. -/
def Outstanding (tcb : Tcb) : Prop :=
  mss.toNat ≤ (tcb.sndMax - tcb.sndUna).toNat ∨ writtenFrom tcb ≤ (tcb.sndMax - tcb.sndUna).toNat

instance (tcb : Tcb) : Decidable (Outstanding tcb) := inferInstanceAs (Decidable (_ ∨ _))

/-- The bytes of a segment lie within `[snd_una, snd_max)`. -/
structure InsideSent (tcb : Tcb) (seg : TcpSegment) : Prop where
  seq : seg.hdr.thSeq = tcb.sndUna
  len : (payload seg).length ≤ (tcb.sndMax - tcb.sndUna).toNat

instance (tcb : Tcb) (seg : TcpSegment) : Decidable (InsideSent tcb seg) :=
  decidable_of_iff (seg.hdr.thSeq = tcb.sndUna ∧
      (payload seg).length ≤ (tcb.sndMax - tcb.sndUna).toNat)
    ⟨fun h => ⟨h.1, h.2⟩, fun h => ⟨h.seq, h.len⟩⟩

theorem retransmitBuffered_toNat (tcb : Tcb) :
    (retransmitBuffered tcb tcb.sndUna).toNat = writtenFrom tcb := by
  have hrest : ∀ sent : U32,
      (if tcb.sendBufTail > sent then tcb.sendBufTail - sent else 0).toNat =
        tcb.sendBufTail.toNat - sent.toNat := by
    intro sent
    split
    · rename_i hlt
      exact toNat_sub_of_ge (Nat.le_of_lt hlt)
    · rename_i hge
      have hge' : ¬ sent.toNat < tcb.sendBufTail.toNat := hge
      exact (Nat.sub_eq_zero_of_le (Nat.le_of_not_lt hge')).symm
  rw [retransmitBuffered, hrest, writtenFrom]
  split
  · rfl
  · exact Nat.sub_zero _

theorem retransmit_payload {reading : Reading} {timeUs : U64} {seg : TcpSegment}
    (hsent : .sent .retransmit timeUs seg ∈ utcpRetransmitSegment reading tcb tcb.sndUna) :
    seg.hdr.thSeq = tcb.sndUna ∧ (payload seg).length = min (writtenFrom tcb) mss.toNat := by
  unfold utcpRetransmitSegment at hsent
  split at hsent
  · cases hsent
  · unfold utcpSendSegment at hsent
    split at hsent
    · simp only [Option.getD_some, List.mem_cons, List.not_mem_nil, or_false, reduceCtorEq,
        false_or, Event.sent.injEq, true_and] at hsent
      obtain ⟨-, rfl⟩ := hsent
      have hlen := smaller_toNat (retransmitBuffered tcb tcb.sndUna) mss
      refine ⟨rfl, ?_⟩
      rw [payload_length_buildSegment _ _ _ _ _ (by omega), hlen, retransmitBuffered_toNat]
    · cases hsent

theorem insideSent_iff {reading : Reading} {timeUs : U64} {seg : TcpSegment}
    (hsent : .sent .retransmit timeUs seg ∈ utcpRetransmitSegment reading tcb tcb.sndUna) :
    InsideSent tcb seg ↔ Outstanding tcb := by
  obtain ⟨hseq, hlen⟩ := retransmit_payload hsent
  unfold Outstanding
  constructor
  · rintro ⟨-, hinside⟩
    omega
  · intro hcovers
    exact ⟨hseq, by omega⟩

theorem InsideSent.ack {seg : TcpSegment} (h : InsideSent tcb seg)
    (hhalf : 2 * (tcb.sndMax - tcb.sndUna).toNat < 2 ^ 32) :
    seqLeq (seg.hdr.thSeq + BitVec.ofNat 32 (payload seg).length) tcb.sndMax = true := by
  obtain ⟨hseq, hlen⟩ := h
  have hword : (BitVec.ofNat 32 (payload seg).length).toNat = (payload seg).length := by
    rw [BitVec.toNat_ofNat, Nat.mod_eq_of_lt (by omega)]
  have hend : (tcb.sndUna + BitVec.ofNat 32 (payload seg).length - tcb.sndUna).toNat =
      (payload seg).length := by
    rw [toNat_add_sub_base (by rw [toNat_sub_self]; omega), toNat_sub_self, hword, Nat.zero_add]
  rw [hseq, seqLeq, decide_eq_true_eq, ← Int.not_lt, sub_pos_iff_of_base (by omega) hhalf]
  omega

/-- Two blocks with the same bytes outstanding. -/
structure SameOutstanding (tcb tcb' : Tcb) : Prop where
  state : tcb'.state = tcb.state
  iss : tcb'.iss = tcb.iss
  sndUna : tcb'.sndUna = tcb.sndUna
  sndMax : tcb'.sndMax = tcb.sndMax
  sendBufTail : tcb'.sendBufTail = tcb.sendBufTail

theorem SameOutstanding.outstanding (h : SameOutstanding tcb tcb') :
    Outstanding tcb' ↔ Outstanding tcb := by
  rw [Outstanding, Outstanding, writtenFrom, writtenFrom, h.iss, h.sndUna, h.sndMax,
    h.sendBufTail]

theorem SameOutstanding.insideSent (h : SameOutstanding tcb tcb') (seg : TcpSegment) :
    InsideSent tcb' seg ↔ InsideSent tcb seg := by
  constructor
  · rintro ⟨hseq, hlen⟩
    rw [h.sndUna] at hseq hlen
    rw [h.sndMax] at hlen
    exact ⟨hseq, hlen⟩
  · rintro ⟨hseq, hlen⟩
    refine ⟨?_, ?_⟩
    · rw [h.sndUna]
      exact hseq
    · rw [h.sndUna, h.sndMax]
      exact hlen

/-- An event other than a retransmission. -/
def NoRetransmission (event : Event) : Prop :=
  ∀ timeUs seg, event ≠ .sent .retransmit timeUs seg

theorem outputStep_events (h : OutputStep tcb log tcb') :
    ∀ event ∈ log, NoRetransmission event := by
  intro event hevent timeUs seg heq
  subst heq
  cases h <;> simp at hevent

theorem outputTrace_events (h : Trace OutputStep tcb log tcb') :
    ∀ event ∈ log, NoRetransmission event :=
  (h.events (I := fun _ => True)
    (fun _ _ _ hstep _ => ⟨trivial, outputStep_events hstep⟩) trivial).2

theorem receiveStep_events (h : ReceiveStep In tcb log tcb') :
    ∀ event ∈ log, NoRetransmission event := by
  intro event hevent timeUs seg heq
  subst heq
  cases h <;> simp at hevent

theorem timerStep_events (h : TimerStep Ex tcb log tcb') :
    ∀ event ∈ log, NoRetransmission event := by
  intro event hevent timeUs seg heq
  subst heq
  cases h <;> simp at hevent

theorem reaction_retransmits {env : Env} {out : Out} (h : Reaction env tcb out) {timeUs : U64}
    {seg : TcpSegment} (hsent : .sent .retransmit timeUs seg ∈ out.log) :
    .sent .retransmit timeUs seg ∈ utcpRetransmitSegment env.retransmit tcb tcb.sndUna := by
  cases h with
  | change => cases hsent
  | retransmit => exact hsent
  | burst cwnd =>
      have hnone := outputTrace_events (utcpOutput_trace env.burst { tcb with cwnd }) _ hsent
      exact absurd rfl (hnone timeUs seg)

theorem SameOutstanding.trans {a b c : Tcb} (hab : SameOutstanding a b)
    (hbc : SameOutstanding b c) : SameOutstanding a c :=
  ⟨hbc.state.trans hab.state, hbc.iss.trans hab.iss, hbc.sndUna.trans hab.sndUna,
    hbc.sndMax.trans hab.sndMax, hbc.sendBufTail.trans hab.sendBufTail⟩

/-- A retransmission made for a block with these bytes outstanding. -/
def RetransmitsFor (tcb : Tcb) (event : Event) : Prop :=
  ∀ timeUs seg, event = .sent .retransmit timeUs seg →
    ∃ reading tcb', SameOutstanding tcb tcb' ∧
      .sent .retransmit timeUs seg ∈ utcpRetransmitSegment reading tcb' tcb'.sndUna

theorem NoRetransmission.retransmitsFor {event : Event} (h : NoRetransmission event) :
    RetransmitsFor tcb event :=
  fun timeUs seg heq => absurd heq (h timeUs seg)

theorem RetransmitsFor.same {event : Event} (h : RetransmitsFor tcb' event)
    (hsame : SameOutstanding tcb tcb') : RetransmitsFor tcb event := by
  intro timeUs seg heq
  obtain ⟨reading, block, hblock, hsent⟩ := h timeUs seg heq
  exact ⟨reading, block, hsame.trans hblock, hsent⟩

theorem RetransmitsFor.never {event : Event} (h : RetransmitsFor tcb event)
    (hstate : tcb.state ≠ .established) : NoRetransmission event := by
  intro timeUs seg heq
  obtain ⟨reading, block, hblock, hsent⟩ := h timeUs seg heq
  rw [utcpRetransmitSegment, if_pos (by rwa [hblock.state])] at hsent
  cases hsent

theorem reaction_retransmitsFor {env : Env} {out : Out} (h : Reaction env tcb' out)
    (hsame : SameOutstanding tcb tcb') : ∀ event ∈ out.log, RetransmitsFor tcb event := by
  rintro event hevent timeUs seg rfl
  exact ⟨env.retransmit, tcb', hsame, reaction_retransmits h hevent⟩

theorem rearmRexmt_events (env : Env) (tcb : Tcb) :
    ∀ event ∈ (rearmRexmt env tcb).log, NoRetransmission event := by
  intro event hevent timeUs seg heq
  subst heq
  unfold rearmRexmt at hevent
  split at hevent
  · cases hevent
  · dsimp only at hevent
    split at hevent
    · simp at hevent
    · cases hevent

/-- `snd_una` once a valid ACK is taken into account. -/
def ackedUna (tcb : Tcb) (ackNum : U32) : U32 :=
  if validAck tcb ackNum then ackNum else tcb.sndUna

theorem ackedUna_self {ackNum : U32} (h : tcb.sndUna = ackNum) : ackedUna tcb ackNum = ackNum := by
  unfold ackedUna
  split
  · rfl
  · exact h

theorem handleAck_retransmits {env : Env} {seg : TcpSegment} {out : Out}
    (h : handleAck env tcb seg = some out) :
    ∀ event ∈ out.log,
      RetransmitsFor { tcb with sndUna := ackedUna tcb seg.hdr.thAck } event := by
  simp only [handleAck] at h
  unfold ackedUna
  split at h
  · rename_i hack
    rw [if_pos hack]
    obtain ⟨cc, hcc, hout⟩ := Option.bind_eq_some_iff.mp h
    cases hout
    have hsend := beforeAckEvent_sameSend env tcb seg
    have hsame : SameOutstanding { tcb with sndUna := seg.hdr.thAck }
        (beforeAckEvent env tcb seg).tcb :=
      ⟨hsend.state, hsend.iss, hsend.sndUna, hsend.sndMax, hsend.sendBufTail⟩
    intro event hevent
    rcases List.mem_append.mp hevent with hevent | hevent
    · exact (rearmRexmt_events env _ event hevent).retransmitsFor
    · exact reaction_retransmitsFor (congControl_reaction (by simp) hcc) hsame event hevent
  · rename_i hack
    rw [if_neg hack]
    split at h
    · simp only [handleSameAck] at h
      split at h
      · cases h
        simp
      · split at h
        · refine reaction_retransmitsFor (congControl_reaction (fun _ => ?_) h)
            ⟨rfl, rfl, rfl, rfl, rfl⟩
          simp
        · cases h
          simp
    · cases h
      simp

theorem handleData_events (env : Env) (tcb : Tcb) (seg : TcpSegment) :
    ∀ event ∈ (handleData env tcb seg).log, NoRetransmission event := by
  have htrace : Trace (DataStep fun _ => True) tcb (handleData env tcb seg).log
      (handleData env tcb seg).tcb := handleData_trace env trivial
  refine (htrace.events (I := fun _ => True) (fun _ _ _ hstep _ => ⟨trivial, ?_⟩) trivial).2
  cases hstep with
  | output h => exact outputStep_events h
  | receive h => exact receiveStep_events h

theorem handleReceivedData_retransmits {env : Env} {seg : TcpSegment} {out : Out}
    (h : handleReceivedData env tcb seg = some out) :
    ∀ event ∈ out.log,
      RetransmitsFor { tcb with sndUna := ackedUna tcb seg.hdr.thAck } event := by
  obtain ⟨acked, hacked, hout⟩ := Option.bind_eq_some_iff.mp h
  cases hout
  have hoptions := processWindowOption_sameSend env seg tcb
  have hsame : SameOutstanding { tcb with sndUna := ackedUna tcb seg.hdr.thAck }
      { processWindowOption env seg tcb with
        sndUna := ackedUna (processWindowOption env seg tcb) seg.hdr.thAck } := by
    refine ⟨hoptions.state, hoptions.iss, ?_, hoptions.sndMax, hoptions.sendBufTail⟩
    dsimp only
    rw [ackedUna, ackedUna, validAck, validAck, hoptions.sndUna, hoptions.sndMax]
  intro event hevent
  rcases List.mem_append.mp hevent with hevent | hevent
  · exact (handleAck_retransmits hacked event hevent).same hsame
  · exact (handleData_events env _ seg event hevent).retransmitsFor

/-- The block a segment makes a retransmission for. -/
def ackedBlock (tcb : Tcb) (hdr : TcpHdr) : Tcb :=
  { tcb with
    state := .established
    sndUna := if tcb.state = .synRecv then hdr.thAck else ackedUna tcb hdr.thAck }

theorem utcpInput_retransmits {env : Env} {seg : TcpSegment} {peer : Peer} {out : Out}
    (h : utcpInput env tcb seg peer = some out) :
    ∀ event ∈ out.log, RetransmitsFor (ackedBlock tcb seg.hdr) event := by
  have houtput : ∀ readings t, ∀ event ∈ (utcpOutput readings t).log,
      RetransmitsFor (ackedBlock tcb seg.hdr) event :=
    fun readings t event hevent =>
      (outputTrace_events (utcpOutput_trace readings t) event hevent).retransmitsFor
  unfold utcpInput at h
  split at h
  · split at h
    · cases h
      exact houtput _ _
    · cases h
      simp
  · split at h
    · obtain ⟨recover, hinit⟩ := congControl_init env (acceptSynAck env tcb seg)
      rw [hinit] at h
      cases h
      exact houtput _ _
    · cases h
      simp
  · rename_i hstate
    obtain ⟨cc, hcc, h⟩ := Option.bind_eq_some_iff.mp h
    obtain ⟨rest, hrest, hout⟩ := Option.bind_eq_some_iff.mp h
    cases hout
    have hreceived := handleReceivedData_retransmits hrest
    unfold synRecvInput at hcc
    split at hcc
    · obtain ⟨recover, hinit⟩ := congControl_init env (acceptFinalAck tcb seg)
      rw [hinit] at hcc
      cases hcc
      intro event hevent
      refine (hreceived event hevent).same ⟨rfl, rfl, ?_, rfl, rfl⟩
      rw [ackedBlock, if_pos hstate]
      exact ackedUna_self rfl
    · cases hcc
      have hwaiting : tcb.state ≠ .established := by
        rw [hstate]
        decide
      exact fun event hevent => ((hreceived event hevent).never hwaiting).retransmitsFor
  · rename_i hstate
    intro event hevent
    refine (handleReceivedData_retransmits h event hevent).same ⟨hstate, rfl, ?_, rfl, rfl⟩
    rw [ackedBlock, if_neg (by rw [hstate]; decide)]
  · cases h
    simp

theorem utcpSlowtimo_events {envs : Timer → Env} {out : Out} (h : utcpSlowtimo envs tcb = some out) :
    ∀ event ∈ out.log, NoRetransmission event := by
  have htrace : Trace (ClockStep fun _ => True) tcb _ _ :=
    utcpSlowtimo_trace (fun _ => trivial) h
  refine (htrace.events (I := fun _ => True) (fun _ _ _ hstep _ => ⟨trivial, ?_⟩) trivial).2
  cases hstep with
  | output h => exact outputStep_events h
  | timer h => exact timerStep_events h

theorem sendLoop_events (envs : Nat → Env) (fuel : Nat) :
    ∀ (turn : Nat) (tcb : Tcb) (remaining : List U8),
      ∀ event ∈ (sendLoop envs fuel turn tcb remaining).1.log, NoRetransmission event := by
  induction fuel with
  | zero =>
      intro turn tcb remaining event hevent
      cases hevent
  | succ fuel ih =>
      intro turn tcb remaining event hevent
      simp only [sendLoop] at hevent
      split at hevent
      · cases hevent
      · rcases List.mem_append.mp hevent with hevent | hevent
        · exact outputTrace_events (utcpOutput_trace ..) event hevent
        · exact ih _ _ _ event hevent

theorem utcpRead_events (env : Env) (tcb : Tcb) (len : Nat) :
    ∀ event ∈ (utcpRead env tcb len).1.log, NoRetransmission event := by
  have hspace : ∀ used reserved, NoRetransmission (.freeSpace used reserved) := by
    intro used reserved timeUs seg
    simp
  intro event hevent
  simp only [utcpRead] at hevent
  split at hevent
  · rcases List.mem_cons.mp hevent with rfl | hevent
    · exact hspace _ _
    · exact outputTrace_events (utcpOutput_trace ..) event hevent
  · rw [List.mem_singleton] at hevent
    rw [hevent]
    exact hspace _ _

theorem afterRead_log (e : Endpoint) (result : Out × List U8) :
    (e.afterRead result).2 = result.1.log := rfl

/-- Only an incoming segment makes an endpoint retransmit a segment at once. -/
theorem run_retransmits {e e' : Endpoint} {s : Section} (h : e.run s = some (e', log))
    {timeUs : U64} {seg : TcpSegment} (hsent : .sent .retransmit timeUs seg ∈ log) :
    ∃ env incoming peer, s = .input env incoming peer ∧
      RetransmitsFor (ackedBlock e.tcb incoming.hdr) (.sent .retransmit timeUs seg) := by
  have hnever : ∀ {out : Out}, (∀ event ∈ out.log, NoRetransmission event) →
      .sent .retransmit timeUs seg ∈ out.log → False :=
    fun hnone hmem => hnone _ hmem timeUs seg rfl
  cases s with
  | connect env ip port =>
      simp only [Endpoint.run] at h
      split at h
      · cases h
        exact (hnever (outputTrace_events (utcpOutput_trace ..)) hsent).elim
      · cases h
  | input env incoming peer =>
      obtain ⟨out, hout, h⟩ := Option.map_eq_some_iff.mp h
      cases h
      exact ⟨env, incoming, peer, rfl, utcpInput_retransmits hout _ hsent⟩
  | slowtimo envs =>
      obtain ⟨out, hout, h⟩ := Option.map_eq_some_iff.mp h
      cases h
      exact (hnever (utcpSlowtimo_events hout) hsent).elim
  | send envs bytes =>
      simp only [Endpoint.run] at h
      split at h
      · cases h
        exact (hnever (sendLoop_events envs _ 0 e.tcb bytes) hsent).elim
      · cases h
  | wake envs =>
      simp only [Endpoint.run] at h
      split at h
      · cases h
        exact (hnever (sendLoop_events envs _ 0 e.tcb e.pending) hsent).elim
      · cases h
  | read env len =>
      simp only [Endpoint.run] at h
      split at h
      · have hlog : (e.afterRead (utcpRead env e.tcb len)).2 = log :=
          congrArg Prod.snd (Option.some.inj h)
        rw [← hlog, afterRead_log] at hsent
        exact (hnever (utcpRead_events env e.tcb len) hsent).elim
      · cases h

/-- Every retransmission an endpoint makes, in any state, stays inside what was
sent exactly when a full segment or everything written is outstanding. -/
theorem retransmission_inside_iff {e e' : Endpoint} {s : Section}
    (hrun : e.run s = some (e', log)) {timeUs : U64} {seg : TcpSegment}
    (hsent : .sent .retransmit timeUs seg ∈ log) :
    ∃ env incoming peer, s = .input env incoming peer ∧
      (InsideSent (ackedBlock e.tcb incoming.hdr) seg ↔
        Outstanding (ackedBlock e.tcb incoming.hdr)) := by
  obtain ⟨env, incoming, peer, rfl, hfor⟩ := run_retransmits hrun hsent
  obtain ⟨reading, block, hsame, hblock⟩ := hfor timeUs seg rfl
  refine ⟨env, incoming, peer, rfl, ?_⟩
  rw [← hsame.insideSent, ← hsame.outstanding]
  exact insideSent_iff hblock

/-- The retransmissions of a log. -/
def retransmitted (log : List Event) : List TcpSegment :=
  log.filterMap fun
    | .sent .retransmit _ seg => some seg
    | _ => none

theorem sent_of_mem_retransmitted {seg : TcpSegment} (h : seg ∈ retransmitted log) :
    ∃ timeUs, .sent .retransmit timeUs seg ∈ log := by
  obtain ⟨event, hevent, hseg⟩ := List.mem_filterMap.mp h
  split at hseg
  · cases hseg
    exact ⟨_, hevent⟩
  · cases hseg

/-- A client that sends between the SYN-ACK and the third duplicate of it. -/
def duplicated (sends : List Action) : List Action :=
  [.run .client (.connect (.still 5) 2 20), .deliver .server (.still 6) 0,
    .duplicate .client 0, .duplicate .client 0, .duplicate .client 0,
    .deliver .client (.still 7) 0] ++ sends ++
    [.deliver .client (.still 10) 0, .deliver .client (.still 11) 0]

/-- The third duplicate arrives: the retransmissions it causes. -/
def thirdDuplicate (n : Net) (incoming : TcpSegment) : Option (List TcpSegment) :=
  (n.client.run (.input (.still 12) incoming (n.address .server))).map fun result =>
    retransmitted result.2

theorem thirdDuplicate_spec {sends : List Action} {check : Tcb → TcpSegment → Bool}
    (h : ((runAll Net.step Net.start (duplicated sends)).bind fun n =>
      (n.inbox .client)[0]?.bind fun incoming =>
        (thirdDuplicate n incoming).map fun segs =>
          segs.any (check (ackedBlock n.client.tcb incoming.hdr))) = some true) :
    ∃ n, Reachable network n ∧ ∃ incoming ∈ n.inbox .client, ∃ e' log timeUs seg,
      n.client.run (.input (.still 12) incoming (n.address .server)) = some (e', log) ∧
        .sent .retransmit timeUs seg ∈ log ∧
        check (ackedBlock n.client.tcb incoming.hdr) seg = true := by
  obtain ⟨n, hn, h⟩ := Option.bind_eq_some_iff.mp h
  obtain ⟨incoming, hincoming, h⟩ := Option.bind_eq_some_iff.mp h
  obtain ⟨segs, hsegs, h⟩ := Option.map_eq_some_iff.mp h
  obtain ⟨⟨e', log⟩, hinput, rfl⟩ := Option.map_eq_some_iff.mp hsegs
  obtain ⟨seg, hseg, hcheck⟩ := List.any_eq_true.mp h
  obtain ⟨timeUs, hsent⟩ := sent_of_mem_retransmitted hseg
  exact ⟨n, reachable_runAll hn, incoming, List.mem_of_getElem? hincoming, e', log, timeUs, seg,
    hinput, hsent, hcheck⟩

/-- Two bytes sent in one segment are retransmitted as they were. -/
theorem retransmission_inside_whole :
    ∃ e e' s log timeUs seg, Endpoint.run e s = some (e', log) ∧
      .sent .retransmit timeUs seg ∈ log ∧
      ∃ env incoming peer, s = .input env incoming peer ∧
        (InsideSent (ackedBlock e.tcb incoming.hdr) seg ↔
          Outstanding (ackedBlock e.tcb incoming.hdr)) := by
  obtain ⟨n, -, incoming, -, e', log, timeUs, seg, hrun, hsent, -⟩ :=
    @thirdDuplicate_spec [.run .client (.send (fun _ => .still 8) [65, 66])]
      (fun tcb seg => decide (InsideSent tcb seg)) (by decide +kernel)
  exact ⟨n.client, e', _, log, timeUs, seg, hrun, hsent, retransmission_inside_iff hrun hsent⟩

/-- Of two bytes the first was sent, and both are retransmitted. -/
theorem retransmission_beyond :
    ∃ n, Reachable network n ∧ ∃ incoming ∈ n.inbox .client, ∃ e' log timeUs seg,
      n.client.run (.input (.still 12) incoming (n.address .server)) = some (e', log) ∧
        .sent .retransmit timeUs seg ∈ log ∧
        ¬ InsideSent (ackedBlock n.client.tcb incoming.hdr) seg := by
  obtain ⟨n, hn, incoming, hincoming, e', log, timeUs, seg, hrun, hsent, hbeyond⟩ :=
    @thirdDuplicate_spec
      [.run .client (.send (fun _ => .still 8) [65]),
        .run .client (.send (fun _ => .still 9) [66])]
      (fun tcb seg => !decide (InsideSent tcb seg)) (by decide +kernel)
  exact ⟨n, hn, incoming, hincoming, e', log, timeUs, seg, hrun, hsent, by simpa using hbeyond⟩

end Utcp.Retransmission
