import Utcp.Receiver
import Utcp.Sender

/-!
The receiving half of the endpoint that waited for the connection: what it has
put together only grows, and its segments acknowledge no more than that.
-/

namespace Utcp.Acknowledging

open SerialNumbers
open Slices
open Traces
open TransitionSystems
open Utcp.Tcp
open Utcp.Utils
open Utcp.Output
open Utcp.CongestionControl
open Utcp.Timers
open Utcp.Input
open Utcp.Api
open Utcp.Steps
open Utcp.Sections
open Utcp.Frames
open Utcp.SendLoop
open Utcp.SectionCases
open Utcp.Accounting
open Utcp.Buffers
open Utcp.Receiver
open Utcp.Sender

variable {In : TcpSegment → Prop} {Ex : U8 → Prop} {P : ℕ → U8 → Prop} {tcb tcb' : Tcb}
  {env : Env} {seg : TcpSegment} {log log' : List Event} {e e' : Endpoint} {s : Section} {out : Out}

theorem receiveStep_bufUsed (h : ReceiveStep In tcb log tcb') (ha : Accounts tcb) :
    (bufUsed tcb).toNat ≤ (bufUsed tcb').toNat := by
  have hsize := recvBufSize_toNat
  have hroom := ha.room
  have haccept : ∀ data : List U8,
      (bufUsed tcb).toNat + data.length ≤ recvBufSize.toNat →
        (bufUsed tcb).toNat ≤ (bufUsed (acceptBytes tcb data)).toNat := by
    intro data hfits
    have hlen : (BitVec.ofNat 32 data.length).toNat = data.length := toNat_ofNat_length (by omega)
    rw [bufUsed_acceptBytes, toNat_add_of_lt (by omega)]
    exact Nat.le_add_right _ _
  cases h with
  | accept seg data hseg hdata hfits =>
      rw [ha.free] at hfits
      exact haccept data (by omega)
  | drain entry rest hqueue hseq hfits =>
      have hentry := ha.entry (hqueue ▸ List.mem_cons_self)
      have hsplit := @Accounts.split _ ha [] rest entry hqueue
      rw [queued_nil] at hsplit
      exact haccept entry.data (by omega)
  | _ => exact Nat.le_refl _

theorem openStep_bufUsed (h : OpenStep In tcb log tcb') : bufUsed tcb' = bufUsed tcb := by
  have hoptions : ∀ (env : Env) (seg : TcpSegment) (t : Tcb),
      bufUsed (processWindowOption env seg t) = bufUsed t :=
    fun env seg t => (processWindowOption_sameReceive env seg t).bufUsed
  cases h with
  | connect => rfl
  | syn env seg peer => exact hoptions env seg tcb
  | synAck env seg => exact hoptions env seg _
  | finalAck => rfl

theorem endpointStep_edge (h : EndpointStep In Ex e log e') (ha : Accounts e.tcb) :
    edgeOf e ≤ edgeOf e' := by
  have hsame : ∀ tcb', SameReceive e.tcb tcb' → (bufUsed e.tcb).toNat ≤ (bufUsed tcb').toNat :=
    fun _ hsame => Nat.le_of_eq (congrArg BitVec.toNat hsame.bufUsed.symm)
  cases h with
  | tcb h =>
      refine Nat.add_le_add_left ?_ _
      cases h with
      | output h => exact hsame _ (outputStep_sameReceive h)
      | receive _ h => exact receiveStep_bufUsed h ha
      | ack _ h => exact hsame _ (ackStep_sameReceive h)
      | timer h => exact hsame _ (timerStep_sameReceive h)
      | opening h => exact Nat.le_of_eq (congrArg BitVec.toNat (openStep_bufUsed h).symm)
  | call => exact Nat.le_refl _
  | write n hstate hroom hn =>
      rw [writeChunk]
      exact Nat.le_refl _
  | read n hstate hn =>
      have hroom := ha.room
      have hread := @ringBufRead_length e.tcb.recvBuf recvBufSize e.tcb.recvBufHead n (by omega)
      rw [edgeOf, edgeOf, List.length_append, hread, bufUsed_takeBytes hn]
      omega

theorem endpointStep_edge_accounts (hIn : ∀ seg, In seg → (payload seg).length < 2 ^ 32)
    (h : EndpointStep In Ex e log e') (ha : Accounts e.tcb) :
    edgeOf e ≤ edgeOf e' ∧ Accounts e'.tcb := by
  refine ⟨endpointStep_edge h ha, ?_⟩
  cases h with
  | tcb h => exact (tcbStep_accounts hIn h ha).1
  | call => exact ha
  | write n hstate hroom hn =>
      rw [writeChunk]
      exact ⟨ha.sum, ha.positive, ha.copied, ha.room⟩
  | read n hstate hn => exact ha.take hn

theorem run_edge (hin : ∀ env seg peer, s = .input env seg peer → (payload seg).length < 2 ^ 32)
    (ha : Accounts e.tcb) (hrun : e.run s = some (e', log)) : edgeOf e ≤ edgeOf e' := by
  have htrace : Trace (EndpointStep (fun seg => (payload seg).length < 2 ^ 32) fun _ => True) e log e' :=
    run_trace hin (fun _ _ _ => trivial) hrun
  refine (htrace.invariant (I := fun e'' => edgeOf e ≤ edgeOf e'' ∧ Accounts e''.tcb) ?_
    ⟨Nat.le_refl _, ha⟩).1
  rintro e₁ log e₂ hstep ⟨hle, ha⟩
  obtain ⟨hle', ha'⟩ := endpointStep_edge_accounts (fun _ hlt => hlt) hstep ha
  exact ⟨Nat.le_trans hle hle', ha'⟩

/-- A stretch of code that waits for the same byte before and after, and whose
segments say so. -/
structure AcksNow (tcb : Tcb) (log : List Event) (tcb' : Tcb) : Prop where
  irs : tcb'.irs = tcb.irs
  rcvNxt : tcb'.rcvNxt = tcb.rcvNxt
  acks : ∀ seg ∈ segments log, seg.hdr.thAck = tcb.rcvNxt

theorem acksNow_composes : Composes AcksNow := by
  refine ⟨fun tcb => ⟨rfl, rfl, by simp⟩, fun h h' => ?_⟩
  refine ⟨h'.irs.trans h.irs, h'.rcvNxt.trans h.rcvNxt, fun seg hseg => ?_⟩
  rw [segments_append, List.mem_append] at hseg
  rcases hseg with hseg | hseg
  · exact h.acks seg hseg
  · exact (h'.acks seg hseg).trans h.rcvNxt

theorem acksNow_same (h : SameReceive tcb tcb')
    (hlog : ∀ seg ∈ segments log, seg.hdr.thAck = tcb.rcvNxt) : AcksNow tcb log tcb' :=
  ⟨h.irs, h.rcvNxt, hlog⟩

theorem outputStep_acksNow (h : OutputStep tcb log tcb') : AcksNow tcb log tcb' := by
  refine acksNow_same (outputStep_sameReceive h) ?_
  cases h with
  | flags => simp
  | delack => simp
  | bare timeUs hlen hsyn => simp [segments, buildSegment]
  | advance timeUs newSynFin hsyn hadvance => simp [segments, buildSegment]

theorem utcpOutput_acksNow (readings : Nat → Reading) (tcb : Tcb) :
    AcksNow tcb (utcpOutput readings tcb).log (utcpOutput readings tcb).tcb :=
  acksNow_composes.trace (fun _ _ _ => outputStep_acksNow) (utcpOutput_trace readings tcb)

theorem acknowOutput_acksNow (readings : Nat → Reading) (tcb : Tcb) :
    AcksNow tcb (utcpOutput readings (setAcknow tcb)).log (utcpOutput readings (setAcknow tcb)).tcb :=
  acksNow_composes.trace (fun _ _ _ => outputStep_acksNow) (acknowOutput_trace readings tcb)

theorem retransmit_acksNow (reading : Reading) (tcb : Tcb) (seq : U32) :
    ∀ seg ∈ segments (utcpRetransmitSegment reading tcb seq), seg.hdr.thAck = tcb.rcvNxt := by
  unfold utcpRetransmitSegment
  split
  · simp
  · unfold utcpSendSegment
    split
    · simp [segments, buildSegment]
    · simp

theorem controlStep_acksNow (h : ControlStep In tcb log tcb') : AcksNow tcb log tcb' := by
  cases h with
  | output h => exact outputStep_acksNow h
  | ack h =>
      refine acksNow_same (ackStep_sameReceive h) ?_
      cases h with
      | retransmit reading => exact retransmit_acksNow reading tcb tcb.sndUna
      | rearm env =>
          unfold rearmRexmt
          split
          · simp
          · dsimp only
            split <;> simp [segments]
      | _ => simp

theorem clockStep_acksNow (h : ClockStep Ex tcb log tcb') : AcksNow tcb log tcb' := by
  cases h with
  | output h => exact outputStep_acksNow h
  | timer h =>
      refine acksNow_same (timerStep_sameReceive h) ?_
      cases h <;> simp [segments]

theorem receiveTrace_quiet (h : Trace (ReceiveStep In) tcb log tcb') : segments log = [] := by
  induction h with
  | nil => rfl
  | cons hstep _ ih =>
      rw [segments_append, ih, List.append_nil]
      cases hstep <;> rfl

/-- What a section may acknowledge: what was waited for before it or is now. -/
structure Answers (tcb : Tcb) (log : List Event) (tcb' : Tcb) : Prop where
  irs : tcb'.irs = tcb.irs
  acks : ∀ seg ∈ segments log, seg.hdr.thAck = tcb.rcvNxt ∨ seg.hdr.thAck = tcb'.rcvNxt

theorem AcksNow.answers (h : AcksNow tcb log tcb') : Answers tcb log tcb' :=
  ⟨h.irs, fun seg hseg => .inl (h.acks seg hseg)⟩

theorem Answers.leaves (h : Answers tcb log tcb') :
    Answers tcb (Out.mk tcb' log).log (Out.mk tcb' log).tcb := h

theorem AcksNow.then_answers {tcb'' : Tcb} (h : AcksNow tcb log tcb') (h' : Answers tcb' log' tcb'') :
    Answers tcb (log ++ log') tcb'' := by
  refine ⟨h'.irs.trans h.irs, fun seg hseg => ?_⟩
  rw [segments_append, List.mem_append] at hseg
  rcases hseg with hseg | hseg
  · exact .inl (h.acks seg hseg)
  · rw [← h.rcvNxt]
    exact h'.acks seg hseg

theorem acceptInOrder_answers (env : Env) (tcb : Tcb) (data : List U8) :
    Answers tcb
      (.freeSpace (bufUsed tcb) tcb.oooBytes ::
        ((acceptInOrder tcb data).log ++ (utcpOutput env.output (acceptInOrder tcb data).tcb).log))
      (utcpOutput env.output (acceptInOrder tcb data).tcb).tcb := by
  have hacks := utcpOutput_acksNow env.output (acceptInOrder tcb data).tcb
  have hdrain : Trace (ReceiveStep fun _ => False) _ _ _ :=
    drainOooQueue_trace (acceptBytes tcb data).oooHead (acceptBytes tcb data)
  have hdrained := receiveTrace_quiet hdrain
  have hquiet : segments (acceptInOrder tcb data).log = [] := hdrained
  have hirs : (acceptInOrder tcb data).tcb.irs = tcb.irs := by
    obtain ⟨_, _, _, _, _, heq⟩ := receiveTrace_eq hdrain
    refine (outputTrace_sameReceive (scheduleAck_trace _ _)).irs.trans ?_
    rw [heq, acceptBytes]
  refine ⟨hacks.irs.trans hirs, fun seg hseg => .inr ?_⟩
  have hsent : seg ∈ segments (utcpOutput env.output (acceptInOrder tcb data).tcb).log := by
    change seg ∈ segments ((acceptInOrder tcb data).log ++ _) at hseg
    rwa [segments_append, hquiet, List.nil_append] at hseg
  exact (hacks.acks seg hsent).trans hacks.rcvNxt.symm

theorem insertOooSegment_acksNow (env : Env) {seqNum : U32} {data : List U8}
    (hdata : Carries seg seqNum data) :
    AcksNow tcb (insertOooSegment env tcb seqNum data).log
      (insertOooSegment env tcb seqNum data).tcb := by
  have hinsert : Trace (ReceiveStep fun _ => True) tcb _ _ := insertOooSegment_trace env trivial hdata
  obtain ⟨oooHead, oooBytes, heq⟩ := Receiver.insertOooSegment_eq env tcb seqNum data
  refine ⟨?_, ?_, ?_⟩
  · rw [heq]
  · rw [heq]
  · rw [receiveTrace_quiet hinsert]
    simp

theorem handleData_answers (env : Env) (tcb : Tcb) (seg : TcpSegment) :
    Answers tcb (handleData env tcb seg).log (handleData env tcb seg).tcb := by
  have hcases := @handleData_cases env tcb seg
  generalize handleData env tcb seg = out at hcases ⊢
  cases hcases with
  | bare => exact (utcpOutput_acksNow env.output tcb).answers
  | repeated => exact (acknowOutput_acksNow env.output tcb).answers
  | accepted data => exact acceptInOrder_answers env tcb data
  | full => exact ⟨rfl, by simp [segments]⟩
  | early seqNum data hdata =>
      exact (acksNow_composes.append (insertOooSegment_acksNow env hdata)
        (acknowOutput_acksNow env.output _)).answers.leaves

theorem handleReceivedData_answers (hout : handleReceivedData env tcb seg = some out) :
    Answers tcb out.log out.tcb := by
  obtain ⟨acked, hacked, hout⟩ := Option.bind_eq_some_iff.mp hout
  cases hout
  have htrace : Trace (ControlStep fun _ => True) (processWindowOption env seg tcb) acked.log
      acked.tcb := handleAck_trace trivial hacked
  have hcontrol : AcksNow _ _ _ := acksNow_composes.trace (fun _ _ _ => controlStep_acksNow) htrace
  have hoptions : AcksNow tcb [] (processWindowOption env seg tcb) :=
    acksNow_same (processWindowOption_sameReceive env seg tcb) (by simp)
  have hboth : AcksNow tcb acked.log acked.tcb := acksNow_composes.append hoptions hcontrol
  exact hboth.then_answers (handleData_answers env acked.tcb seg)

theorem run_answers (hstate : Receiving tcb) (hout : RunCases tcb s out) :
    Answers tcb out.log out.tcb := by
  have hnot : ∀ {state : TcpState}, tcb.state = state → state ≠ .synRecv → state ≠ .established →
      False := by
    rintro state rfl hrecv hest
    exact hstate.elim hrecv hest
  have hsend : ∀ (envs : Nat → Env) (bytes : List U8),
      AcksNow tcb (utcpSend envs tcb bytes).1.log (utcpSend envs tcb bytes).1.tcb := by
    intro envs bytes
    refine utcpSend_composes acksNow_composes (fun turn t chunk => ?_) tcb bytes
    have hwritten : AcksNow t [] (writeChunk t chunk) := by
      rw [writeChunk]
      exact ⟨rfl, rfl, by simp⟩
    exact acksNow_composes.append hwritten (utcpOutput_acksNow (envs turn).output _)
  cases hout with
  | connect env ip port hclosed => exact (hnot hclosed (by decide) (by decide)).elim
  | input env seg peer out hin =>
      cases hin with
      | syn hlisten => exact (hnot hlisten (by decide) (by decide)).elim
      | synAck cc hsent => exact (hnot hsent (by decide) (by decide)).elim
      | finalAck cc rest hrecv hcompletes hcc hrest =>
          have htrace : Trace (ControlStep fun _ => True) (acceptFinalAck tcb seg) cc.log cc.tcb :=
            congControl_trace (by simp) hcc
          have hcontrol : AcksNow _ _ _ := acksNow_composes.trace (fun _ _ _ => controlStep_acksNow) htrace
          have hboth : AcksNow tcb cc.log cc.tcb := ⟨hcontrol.irs, hcontrol.rcvNxt, hcontrol.acks⟩
          exact hboth.then_answers (handleReceivedData_answers hrest)
      | received _ hreceiving hnot hrest => exact handleReceivedData_answers hrest
      | ignored hnot => exact absurd hstate hnot
  | slowtimo envs out hslow =>
      have htrace : Trace (ClockStep fun _ => True) tcb out.log out.tcb :=
        utcpSlowtimo_trace (fun _ => trivial) hslow
      have hclock : AcksNow _ _ _ := acksNow_composes.trace (fun _ _ _ => clockStep_acksNow) htrace
      exact hclock.answers
  | send envs bytes => exact (hsend envs bytes).answers
  | wake envs bytes => exact (hsend envs bytes).answers
  | read env len out hest hread =>
      have htaken : ∀ n log, segments log = [] → AcksNow tcb log (takeBytes tcb n) := by
        intro n log hlog
        obtain ⟨_, _, heq⟩ := takeBytes_eq tcb n
        rw [heq]
        refine ⟨rfl, rfl, ?_⟩
        rw [hlog]
        simp
      cases hread with
      | update n hn =>
          exact (acksNow_composes.append (htaken n [.freeSpace _ _] rfl)
            (acknowOutput_acksNow env.output (takeBytes tcb n))).answers
      | quiet n hn => exact (htaken n _ rfl).answers

inductive Server (e : Endpoint) : Prop
  | listening (hstate : e.tcb.state = .listen) (htimers : ∀ timer, e.tcb.tTimer timer = 0)
  | receiving (hstate : Receiving e.tcb) (hirs : e.tcb.irs = 0)

theorem Server.start (ip : U32) (port : U16) :
    Server (.start (utcpListen (utcpBind utcpSocket ip port))) :=
  .listening rfl fun _ => rfl

/-- In `TCP_LISTEN` no timer runs. -/
structure Waits (tcb : Tcb) : Prop where
  state : tcb.state = .listen
  timers : ∀ timer, tcb.tTimer timer = 0

theorem Waits.slowtimo {envs : Timer → Env} (h : Waits tcb) (hout : utcpSlowtimo envs tcb = some out) :
    Waits out.tcb ∧ segments out.log = [] := by
  have hcomposes : Composes fun tcb log tcb' => Waits tcb → Waits tcb' ∧ segments log = [] := by
    refine ⟨fun tcb h => ⟨h, rfl⟩, fun hab hbc ha => ?_⟩
    obtain ⟨hb, hlog⟩ := hab ha
    obtain ⟨hc, hlog'⟩ := hbc hb
    exact ⟨hc, by rw [segments_append, hlog, hlog', List.append_nil]⟩
  refine utcpSlowtimo_composes hcomposes (fun timer t out htick hwaits => ?_) ?_ hout h
  · have hzero := hwaits.timers timer
    have hrexmt := hwaits.timers .rexmt
    have hdelack := hwaits.timers .delack
    cases htick with
    | idle => exact ⟨hwaits, rfl⟩
    | countDown _ hticks =>
        rw [hzero] at hticks
        exact absurd hticks (by decide)
    | rexmt recover hticks =>
        rw [hrexmt] at hticks
        exact absurd hticks (by decide)
    | delack hticks =>
        rw [hdelack] at hticks
        exact absurd hticks (by decide)
    | other _ hticks =>
        rw [hzero] at hticks
        exact absurd hticks (by decide)
  · exact fun h => ⟨⟨h.state, h.timers⟩, rfl⟩

/-- The first segment that matters in `TCP_LISTEN` is the SYN of the stream. -/
theorem run_waits {stream : List U8} (h : Waits tcb)
    (hin : ∀ env seg peer, s = .input env seg peer → PartOf stream seg) (hout : RunCases tcb s out) :
    (Waits out.tcb ∧ segments out.log = []) ∨
      Receiving out.tcb ∧ out.tcb.irs = 0 ∧ ∀ seg ∈ segments out.log, seg.hdr.thAck = seqOf 0 := by
  have hstate := h.state
  cases hout with
  | connect env ip port hother => exact absurd (hother.symm.trans hstate) (by decide)
  | input env seg peer out hcases =>
      cases hcases with
      | syn hlisten hflag =>
          have hseq := (hin env seg peer rfl).syn hflag
          have hacks := utcpOutput_acksNow env.output (acceptSyn env tcb seg peer)
          refine .inr ⟨.inl (utcpOutput_state ..), hacks.irs.trans hseq, fun seg' hseg' => ?_⟩
          have hrcvNxt : (acceptSyn env tcb seg peer).rcvNxt = seg.hdr.thSeq + 1 := rfl
          rw [hacks.acks seg' hseg', hrcvNxt, hseq]
          rfl
      | synAck cc hother => exact absurd (hother.symm.trans hstate) (by decide)
      | finalAck cc rest hother => exact absurd (hother.symm.trans hstate) (by decide)
      | received _ hreceiving =>
          rcases hreceiving with hother | hother <;>
            exact absurd (hother.symm.trans hstate) (by decide)
      | ignored => exact .inl ⟨h, rfl⟩
  | slowtimo envs out hslow => exact .inl (h.slowtimo hslow)
  | send envs bytes hother => exact absurd (hother.symm.trans hstate) (by decide)
  | wake envs bytes hother => exact absurd (hother.symm.trans hstate) (by decide)
  | read env len out hother => exact absurd (hother.symm.trans hstate) (by decide)

theorem edgeOf_of_closed (hreceives : Receives P e) (hstate : ¬ Receiving e.tcb) : edgeOf e = 0 := by
  obtain ⟨huntouched, hempty⟩ := hreceives.closed hstate
  rw [edgeOf, hempty, bufUsed, huntouched.recvBufTail, huntouched.recvBufHead]
  rfl

theorem edgeOf_le {stream : List U8} (hreceives : Receives (Agrees 0 stream) e) :
    edgeOf e ≤ stream.length := by
  by_cases hstate : Receiving e.tcb
  · have hreassembled := hreceives.reassembled hstate
    obtain ⟨bytes, hassembled, -⟩ := hreceives.opened hstate
    have hsize := hassembled.buffered.size
    rw [← hassembled.buffered.used] at hsize
    have hlen := hreassembled.inOrder.length_le
    rw [List.length_append, ringContents, ringBufRead_length hsize] at hlen
    exact hlen
  · rw [edgeOf_of_closed hreceives hstate]
    exact Nat.zero_le _

theorem seqOf_eq (pos : ℕ) : seqOf pos = 0 + 1 + BitVec.ofNat 32 pos := by
  rw [seqOf, BitVec.ofNat_add, BitVec.add_comm]
  exact congrArg (· + BitVec.ofNat 32 pos) (BitVec.zero_add 1#32).symm

theorem rcvNxt_eq (hreceives : Receives P e) (hstate : Receiving e.tcb) (hirs : e.tcb.irs = 0) :
    e.tcb.rcvNxt = seqOf (edgeOf e) := by
  obtain ⟨bytes, hassembled, -⟩ := hreceives.opened hstate
  rw [hassembled.buffered.rcvNxt, hassembled.buffered.tail, hirs, edgeOf, hassembled.buffered.used,
    seqOf_eq]

theorem PartOf.inStream {stream : List U8} {edge : ℕ} (hstream : stream.length < 2 ^ 31 - 1)
    (h : PartOf stream seg) (hedge : edge ≤ stream.length) : InStream (Agrees 0 stream) 0 edge seg := by
  rcases h.slice with hempty | ⟨pos, hseq, hslice⟩
  · exact .inl hempty
  · by_cases hne : payload seg = []
    · exact .inl hne
    · have hpos := List.length_pos_of_ne_nil hne
      have hlen := hslice.length_le
      rw [List.length_drop] at hlen
      refine .inr ⟨pos, ?_, fits_agrees_iff.mpr hslice, by omega, by omega, by omega⟩
      rw [hseq, seqOf_eq]

theorem payload_lt {stream : List U8} (hstream : stream.length < 2 ^ 31 - 1) (h : PartOf stream seg) :
    (payload seg).length < 2 ^ 32 := by
  rcases h.slice with hempty | ⟨pos, -, hslice⟩
  · rw [hempty]
    exact Nat.two_pow_pos 32
  · have hlen := hslice.length_le
    rw [List.length_drop] at hlen
    omega

theorem run_receiving (hstate : Receiving e.tcb) (hrun : e.run s = some (e', log)) :
    Receiving e'.tcb := by
  have htrace : Trace (EndpointStep (fun _ => True) fun _ => True) e log e' :=
    run_trace (fun _ _ _ _ => trivial) (fun _ _ _ => trivial) hrun
  refine htrace.invariant (I := fun e => Receiving e.tcb) (fun _ _ _ hstep hstate => ?_) hstate
  cases hstep with
  | tcb h => exact tcbStep_receiving h hstate
  | call => exact hstate
  | write n hest => exact .inr ((writeChunk_state ..).trans hest)
  | read n hest => exact .inr ((takeBytes_state ..).trans hest)

/-- One critical section of the endpoint that waited for the connection. -/
theorem run_server {stream : List U8} (hstream : stream.length < 2 ^ 31 - 1) (h : Server e)
    (hreceives : Receives (Agrees 0 stream) e)
    (hin : ∀ env seg peer, s = .input env seg peer → PartOf stream seg)
    (hrun : e.run s = some (e', log)) :
    Server e' ∧ Receives (Agrees 0 stream) e' ∧ edgeOf e ≤ edgeOf e' ∧
      ∀ seg ∈ segments log, Acks (edgeOf e') seg := by
  obtain ⟨out, hout, hran⟩ := run_cases hrun
  have hedge := edgeOf_le hreceives
  cases h with
  | listening hstate htimers =>
      have hnot : ¬ Receiving e.tcb := by
        rintro (hother | hother) <;> exact absurd (hother.symm.trans hstate) (by decide)
      have hreceives' := run_receives hreceives
        (fun env seg peer _ hreceiving => absurd hreceiving hnot) hrun
      have hzero := edgeOf_of_closed hreceives hnot
      have hnext := run_waits ⟨hstate, htimers⟩ hin hout
      rw [← hran.tcb_eq, ← hran.log_eq] at hnext
      rcases hnext with ⟨hwaits, hlog⟩ | ⟨hreceiving, hirs, hlog⟩
      · refine ⟨.listening hwaits.state hwaits.timers, hreceives', by omega, ?_⟩
        rw [hlog]
        simp
      · refine ⟨.receiving hreceiving hirs, hreceives', by omega, fun seg hseg => ?_⟩
        exact ⟨0, Nat.zero_le _, hlog seg hseg⟩
  | receiving hstate hirs =>
      have hreceives' : Receives (Agrees 0 stream) e' := by
        refine run_receives hreceives (fun env seg peer heq _ => ?_) hrun
        rw [hirs]
        exact PartOf.inStream hstream (hin env seg peer heq) hedge
      have hstate' := run_receiving hstate hrun
      have hanswers := run_answers hstate hout
      rw [← hran.tcb_eq, ← hran.log_eq] at hanswers
      have hirs' := hanswers.irs.trans hirs
      obtain ⟨_, hassembled, -⟩ := hreceives.opened hstate
      have hgrown := run_edge (fun env seg peer heq => payload_lt hstream (hin env seg peer heq))
        hassembled.accounts hrun
      refine ⟨.receiving hstate' hirs', hreceives', hgrown, fun seg hseg => ?_⟩
      rcases hanswers.acks seg hseg with hack | hack
      · exact ⟨edgeOf e, hgrown, hack.trans (rcvNxt_eq hreceives hstate hirs)⟩
      · exact ⟨edgeOf e', Nat.le_refl _, hack.trans (rcvNxt_eq hreceives' hstate' hirs')⟩

end Utcp.Acknowledging
