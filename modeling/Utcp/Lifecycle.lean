import Utcp.Network
import Utcp.Sender

/-!
The life of an endpoint up to `TCP_ESTABLISHED`, in any environment, and the two tests
of `th_ack` at its end: they go by `snd_nxt`, which an expiry takes back.
-/

namespace Utcp.Lifecycle

open Traces
open TransitionSystems
open Utcp.Tcp
open Utcp.Utils
open Utcp.Output
open Utcp.CongestionControl
open Utcp.Timers
open Utcp.Input
open Utcp.Api
open Utcp.Network
open Utcp.Steps
open Utcp.Sections
open Utcp.SendLoop
open Utcp.Opening
open Utcp.SectionCases
open Utcp.Sender

variable {In : TcpSegment → Prop} {Ex : U8 → Prop} {tcb tcb' : Tcb} {log : List Event}
  {e e' : Endpoint} {s : Section} {env : Env}
  {seg : TcpSegment} {peer : Peer} {out : Out}

theorem utcpOutput_silent (readings : Nat → Reading) (tcb : Tcb) (timer : Timer) :
    .expired timer ∉ (utcpOutput readings tcb).log := by
  have htrace := utcpOutput_trace readings tcb
  have hevents := (htrace.events (I := fun _ => True) (G := fun event => event ≠ .expired timer)
    (fun _ _ _ hstep _ => ⟨trivial, by cases hstep <;> simp⟩) trivial).2
  exact fun hmem => hevents _ hmem rfl

/-- Before any timeout `snd_nxt` counts the SYN-ACKs. -/
structure Answering (history : List Event) (tcb : Tcb) : Prop where
  iss : tcb.iss = 0
  all : tcb.sndNxt = tcb.sndMax
  count : tcb.sndNxt = BitVec.ofNat 32 (segments history).length

/-- What a step leaves true in `TCP_SYN_RECV`. -/
def KeepsAnswering (tcb : Tcb) (log : List Event) (tcb' : Tcb) : Prop :=
  ∀ history, tcb.state = .synRecv → Answering history tcb → tcb'.state = .synRecv →
    .expired .rexmt ∉ log → Answering (history ++ log) tcb'

theorem keepsAnswering_same (hiss : tcb'.iss = tcb.iss) (hnxt : tcb'.sndNxt = tcb.sndNxt)
    (hmax : tcb'.sndMax = tcb.sndMax) (hlog : segments log = []) : KeepsAnswering tcb log tcb' := by
  intro history _ h _ _
  refine ⟨hiss.trans h.iss, hnxt.trans (h.all.trans hmax.symm), hnxt.trans ?_⟩
  rw [segments_append, hlog, List.append_nil]
  exact h.count

theorem outputStep_answering (h : OutputStep tcb log tcb') : KeepsAnswering tcb log tcb' := by
  cases h with
  | flags => exact keepsAnswering_same rfl rfl rfl rfl
  | delack => exact keepsAnswering_same rfl rfl rfl rfl
  | bare timeUs hlen hsyn =>
      intro history hstate hanswering
      rw [sendingNewSynFin, hanswering.all, beq_self_eq_true, hstate] at hsyn
      exact absurd hsyn (by decide)
  | advance timeUs newSynFin hsyn hadvance =>
      intro history hstate hanswering _ _
      have hnew : newSynFin = true := by
        rw [← hsyn, sendingNewSynFin, hanswering.all, beq_self_eq_true, hstate]
        decide
      have hlen : outputLength tcb = 0 := outputLength_opening (by rw [hstate]; decide)
      obtain ⟨_, _, _, heq⟩ := advanceSndNxt_eq tcb 0 true
      have hone : tcb.sndNxt + (0 + if true = true then 1 else 0) = tcb.sndNxt + 1 :=
        congrArg (tcb.sndNxt + ·) (by decide)
      have hraised : nextSndMax tcb (0 + if true = true then 1 else 0) = tcb.sndNxt + 1 := by
        rw [nextSndMax, hone, ← hanswering.all, if_pos]
        rw [seqGt, BitVec.add_comm, BitVec.add_sub_cancel]
        decide
      rw [hone, hraised] at heq
      rw [hlen, hnew, heq]
      refine ⟨hanswering.iss, rfl, ?_⟩
      dsimp only
      rw [hanswering.count, segments_append, List.length_append]
      exact (BitVec.ofNat_add ..).symm

theorem utcpOutput_answering (readings : Nat → Reading) (tcb : Tcb) :
    KeepsAnswering tcb (utcpOutput readings tcb).log (utcpOutput readings tcb).tcb := by
  have hcomposes : Composes fun tcb log tcb' =>
      KeepsAnswering tcb log tcb' ∧ tcb'.state = tcb.state := by
    refine ⟨fun tcb => ⟨keepsAnswering_same rfl rfl rfl rfl, rfl⟩, ?_⟩
    rintro a b c log log' ⟨hab, hb⟩ ⟨hbc, hc⟩
    refine ⟨fun history hstate h _ hlog => ?_, hc.trans hb⟩
    rw [List.mem_append, not_or] at hlog
    rw [← List.append_assoc]
    exact hbc _ (hb.trans hstate) (hab history hstate h (hb.trans hstate) hlog.1)
      (hc.trans (hb.trans hstate)) hlog.2
  exact (hcomposes.trace (fun _ _ _ hstep => ⟨outputStep_answering hstep, outputStep_state hstep⟩)
    (utcpOutput_trace readings tcb)).1

theorem receiveStep_answering (h : ReceiveStep In tcb log tcb') : KeepsAnswering tcb log tcb' := by
  have hsame := Frames.receiveStep_sameSend h
  refine keepsAnswering_same hsame.iss hsame.sndNxt hsame.sndMax ?_
  cases h <;> rfl

theorem ackStep_answering (h : AckStep In tcb log tcb') : KeepsAnswering tcb log tcb' := by
  cases h with
  | ack seg hseg hack =>
      -- no acknowledgment is beyond `snd_max`, so `snd_nxt` stays where it is
      intro history hstate hanswering hstate' hlog
      have hbelow : seqGt seg.hdr.thAck tcb.sndNxt = false := by
        rw [validAck, Bool.and_eq_true] at hack
        rw [hanswering.all, seqGt_eq_not, hack.2]
        rfl
      have hnxt : (acceptAck tcb seg.hdr).sndNxt = tcb.sndNxt := by
        simp only [acceptAck]
        rw [if_neg (by rw [hbelow]; decide)]
      have hkeeps : KeepsAnswering tcb [] (acceptAck tcb seg.hdr) :=
        keepsAnswering_same rfl hnxt rfl rfl
      exact hkeeps history hstate hanswering hstate' hlog
  | options env seg hseg =>
      have hsame := Frames.processWindowOption_sameSend env seg tcb
      exact keepsAnswering_same hsame.iss hsame.sndNxt hsame.sndMax rfl
  | window => exact keepsAnswering_same rfl rfl rfl rfl
  | sample rttUs =>
      have hsame := Frames.ackStep_sameSend (.sample tcb rttUs)
      exact keepsAnswering_same hsame.iss hsame.sndNxt hsame.sndMax rfl
  | rearm env =>
      have hsame := Frames.ackStep_sameSend (.rearm tcb env)
      refine keepsAnswering_same hsame.iss hsame.sndNxt hsame.sndMax ?_
      unfold rearmRexmt
      split
      · rfl
      · dsimp only
        split <;> rfl
  | congestion => exact keepsAnswering_same rfl rfl rfl rfl
  | retransmit reading =>
      intro history hstate hanswering hstate' hlog
      have hnone : utcpRetransmitSegment reading tcb tcb.sndUna = [] := by
        rw [utcpRetransmitSegment, if_pos]
        rw [hstate]
        decide
      rw [hnone, List.append_nil]
      exact hanswering

theorem timerStep_answering (h : TimerStep Ex tcb log tcb') : KeepsAnswering tcb log tcb' := by
  cases h with
  | clock => exact keepsAnswering_same rfl rfl rfl rfl
  | countDown => exact keepsAnswering_same rfl rfl rfl rfl
  | rexmt => exact fun _ _ _ _ hlog => absurd (List.mem_cons_self ..) hlog
  | other => exact keepsAnswering_same rfl rfl rfl rfl

theorem tcbStep_answering (h : TcbStep In Ex tcb log tcb') (hreceiving : Receiving tcb) :
    KeepsAnswering tcb log tcb' ∧ (tcb'.state = .synRecv → tcb.state = .synRecv) := by
  cases h with
  | output h => exact ⟨outputStep_answering h, fun hstate => (outputStep_state h).symm.trans hstate⟩
  | receive _ h =>
      exact ⟨receiveStep_answering h, fun hstate => (dataStep_state (.receive h)).symm.trans hstate⟩
  | ack _ h => exact ⟨ackStep_answering h, fun hstate => (ackStep_state h).symm.trans hstate⟩
  | timer h =>
      refine ⟨timerStep_answering h, fun hstate => ?_⟩
      cases h with
      | rexmt env recover =>
          obtain ⟨_, _, heq⟩ := expireRexmt_eq env tcb recover
          rw [heq] at hstate
          exact hstate
      | _ => exact hstate
  | opening h =>
      cases h with
      | finalAck seg =>
          have hnot : (acceptFinalAck tcb seg).state ≠ .synRecv := by
            change TcpState.established ≠ .synRecv
            decide
          exact ⟨fun _ _ _ hstate _ => absurd hstate hnot, fun hstate => absurd hstate hnot⟩
      | connect ip port hother =>
          rcases hreceiving with hstate | hstate <;>
            exact absurd (hother.symm.trans hstate) (by decide)
      | syn env seg peer hseg hother =>
          rcases hreceiving with hstate | hstate <;>
            exact absurd (hother.symm.trans hstate) (by decide)
      | synAck env seg hseg hother =>
          rcases hreceiving with hstate | hstate <;>
            exact absurd (hother.symm.trans hstate) (by decide)

/-- In `TCP_SYN_RECV`, until the retransmission timer expires. -/
def Answers (e : Endpoint) : Prop :=
  e.tcb.state = .synRecv → .expired .rexmt ∉ e.history → Answering e.history e.tcb

theorem endpointStep_answers (h : EndpointStep In Ex e log e') (hreceiving : Receiving e.tcb)
    (hanswers : Answers e) : Receiving e'.tcb ∧ Answers e' := by
  cases h with
  | tcb h =>
      obtain ⟨hkeeps, hback⟩ := tcbStep_answering h hreceiving
      refine ⟨tcbStep_receiving h hreceiving, fun hstate hexpired => ?_⟩
      rw [List.mem_append, not_or] at hexpired
      have hbefore := hback hstate
      exact hkeeps e.history hbefore (hanswers hbefore hexpired.1) hstate hexpired.2
  | call => exact ⟨hreceiving, hanswers⟩
  | write k hstate => exact ⟨.inr hstate, fun hother => absurd (hother.symm.trans hstate) (by decide)⟩
  | read k hstate =>
      have hsame : (takeBytes e.tcb k).state = .established := (takeBytes_state ..).trans hstate
      exact ⟨.inr hsame, fun hother => absurd (hother.symm.trans hsame) (by decide)⟩

/-- A socket that listens: only its idle counter has moved. -/
def Listening (tcb : Tcb) : Prop :=
  ∃ ip port tIdle, tcb = { utcpListen (utcpBind utcpSocket ip port) with tIdle }

/-- The SYN is out, and no timeout has taken it back. -/
def SynOut (history : List Event) : Prop := segments history ≠ [] ∧ .expired .rexmt ∉ history

/-- Where an endpoint stands. -/
inductive Phase (e : Endpoint) : Prop
  | idle (h : Idle e.tcb) (hnew : e.history = [])
  | opening (h : Opening e.tcb) (hsyn : e.tcb.sndNxt = 1 ↔ SynOut e.history)
  | listening (h : Listening e.tcb) (hnew : e.history = [])
  | receiving (h : Receiving e.tcb) (hanswers : Answers e)

theorem phase_fresh (h : e.Fresh) : Phase e := by
  obtain ⟨ip, port, rfl | rfl⟩ := h
  · exact .idle ⟨rfl, rfl, rfl, rfl, rfl, rfl, rfl, rfl, fun _ => rfl⟩ rfl
  · exact .listening ⟨ip, port, 0, rfl⟩ rfl

/-- A stretch of a tick while the SYN waits for its answer. -/
def Waits (tcb : Tcb) (log : List Event) (tcb' : Tcb) : Prop :=
  Opening tcb → Opening tcb' ∧ segments log = [] ∧
    (tcb'.sndNxt = 1 ↔ tcb.sndNxt = 1 ∧ .expired .rexmt ∉ log)

theorem waits_composes : Composes Waits := by
  refine ⟨fun tcb h => ⟨h, rfl, by simp⟩, fun hab hbc ha => ?_⟩
  obtain ⟨hb, hlog, hnxt⟩ := hab ha
  obtain ⟨hc, hlog', hnxt'⟩ := hbc hb
  refine ⟨hc, by rw [segments_append, hlog, hlog', List.append_nil], ?_⟩
  rw [hnxt', hnxt, List.mem_append, not_or, and_assoc]

theorem tick_waits {timer : Timer} (htick : TickCases env tcb timer out) :
    Waits tcb out.log out.tcb := by
  intro h
  obtain ⟨hopening, hlog⟩ := h.tick htick
  refine ⟨hopening, hlog, ?_⟩
  cases htick with
  | idle => simp
  | countDown timer => exact ⟨fun hnxt => ⟨hnxt, by simp⟩, fun hnxt => hnxt.1⟩
  | rexmt recover hticks =>
      obtain ⟨-, hquiet⟩ := h.expires hticks env recover
      obtain ⟨_, _, heq⟩ := expireRexmt_eq env tcb recover
      have hback : (expireRexmt env tcb recover).sndNxt = 0 := by
        rw [heq]
        exact h.sndUna
      rw [hquiet]
      refine iff_of_false ?_ (by simp)
      dsimp only
      rw [hback]
      decide
  | delack hticks =>
      rw [h.delack] at hticks
      exact absurd hticks (by decide)
  | other timer hticks hrexmt =>
      exact ⟨fun hnxt => ⟨hnxt, by simpa using Ne.symm hrexmt⟩, fun hnxt => hnxt.1⟩

theorem slowtimo_waits {envs : Timer → Env} (h : utcpSlowtimo envs tcb = some out) :
    Waits tcb out.log out.tcb := by
  refine utcpSlowtimo_composes waits_composes (fun _ _ _ htick => tick_waits htick) ?_ h
  intro h
  refine ⟨⟨h.state, h.iss, h.sndUna, h.head, h.tail, h.acknow, h.delack, h.syn⟩, rfl, ?_⟩
  exact ⟨fun hnxt => ⟨hnxt, by simp⟩, fun hnxt => hnxt.1⟩

theorem connect_synOut (h : Idle tcb) (env : Env) (ip : U32) (port : U16) :
    (utcpConnect env tcb ip port).tcb.sndNxt = 1 ↔ SynOut (utcpConnect env tcb ip port).log := by
  let asked : Tcb :=
    { tcb with dstIp := ip, dstPort := port, dstUdpPort := 1970, state := .synSent }
  have hasked : asked.state ≠ .established := by
    change TcpState.synSent ≠ .established
    decide
  have hends := utcpOutput_ends env.output hasked
  have hsilent := utcpOutput_silent env.output asked .rexmt
  change (utcpOutput env.output asked).tcb.sndNxt = 1 ↔ SynOut (utcpOutput env.output asked).log
  have hnxt : (cancelDelack { asked with tfAcknow := false }).sndNxt = 0 :=
    (cancelDelack_sndNxt _).trans h.sndNxt
  have hnew : sendingNewSynFin (tcpOutflags asked.state) asked = true := by
    have hsame : asked.sndNxt = asked.sndMax := h.sndNxt.trans h.sndMax.symm
    rw [sendingNewSynFin, hsame, beq_self_eq_true]
    change (hasFlag (tcpOutflags .synSent) (thSyn ||| thFin) && true) = true
    decide
  generalize utcpOutput env.output asked = out at hends hsilent ⊢
  cases hends with
  | quiet hsyn => exact absurd (hsyn.symm.trans hnew) (by decide)
  | failed halloc hcause =>
      refine iff_of_false ?_ (by simp [SynOut])
      dsimp only
      rw [hnxt]
      decide
  | bare hsyn => exact absurd (hsyn.symm.trans hnew) (by decide)
  | syn hsyn log hlog =>
      refine iff_of_true ?_ ⟨by simp [hlog], hsilent⟩
      obtain ⟨_, _, _, heq⟩ := advanceSndNxt_eq (cancelDelack { asked with tfAcknow := false }) 0 true
      dsimp only
      rw [heq]
      dsimp only
      rw [hnxt]
      decide

theorem Listening.slowtimo {envs : Timer → Env} (h : Listening tcb)
    (hout : utcpSlowtimo envs tcb = some out) : Listening out.tcb ∧ out.log = [] := by
  obtain ⟨ip, port, tIdle, rfl⟩ := h
  have htick : utcpSlowtimo envs { utcpListen (utcpBind utcpSocket ip port) with tIdle } =
      some ⟨{ utcpListen (utcpBind utcpSocket ip port) with tIdle := tIdle + 1 }, []⟩ := rfl
  rw [htick] at hout
  cases hout
  exact ⟨⟨ip, port, tIdle + 1, rfl⟩, rfl⟩

theorem Listening.state (h : Listening tcb) : tcb.state = .listen := by
  obtain ⟨ip, port, tIdle, rfl⟩ := h
  rfl

theorem closed_cases (hstate : tcb.state = .closed) (hout : RunCases tcb s out) :
    (∃ env ip port, out = utcpConnect env tcb ip port) ∨ out = ⟨tcb, []⟩ := by
  cases hout with
  | connect env ip port => exact .inl ⟨env, ip, port, rfl⟩
  | input env seg peer out hin =>
      cases hin with
      | syn hother => exact absurd (hother.symm.trans hstate) (by decide)
      | synAck cc hother => exact absurd (hother.symm.trans hstate) (by decide)
      | finalAck cc rest hother => exact absurd (hother.symm.trans hstate) (by decide)
      | received _ hreceiving =>
          rcases hreceiving with hother | hother <;>
            exact absurd (hother.symm.trans hstate) (by decide)
      | ignored => exact .inr rfl
  | slowtimo envs out hslow =>
      rw [utcpSlowtimo, if_pos hstate] at hslow
      cases hslow
      exact .inr rfl
  | send envs bytes hother => exact absurd (hother.symm.trans hstate) (by decide)
  | wake envs bytes hother => exact absurd (hother.symm.trans hstate) (by decide)
  | read env len out hother => exact absurd (hother.symm.trans hstate) (by decide)

theorem synSent_cases (hstate : tcb.state = .synSent) (hout : RunCases tcb s out) :
    (∃ env seg peer cc, s = .input env seg peer ∧ isAwaitedSynAck tcb seg.hdr ∧
      congControl env (acceptSynAck env tcb seg) .init = some cc ∧
        out.tcb = (utcpOutput env.output (setAcknow cc.tcb)).tcb) ∨
      out = ⟨tcb, []⟩ ∨ ∃ envs, utcpSlowtimo envs tcb = some out := by
  cases hout with
  | connect env ip port hother => exact absurd (hother.symm.trans hstate) (by decide)
  | input env seg peer out hin =>
      cases hin with
      | syn hother => exact absurd (hother.symm.trans hstate) (by decide)
      | synAck cc hsent hawaited hcc => exact .inl ⟨env, seg, peer, cc, rfl, hawaited, hcc, rfl⟩
      | finalAck cc rest hother => exact absurd (hother.symm.trans hstate) (by decide)
      | received _ hreceiving =>
          rcases hreceiving with hother | hother <;>
            exact absurd (hother.symm.trans hstate) (by decide)
      | ignored => exact .inr (.inl rfl)
  | slowtimo envs out hslow => exact .inr (.inr ⟨envs, hslow⟩)
  | send envs bytes hother => exact absurd (hother.symm.trans hstate) (by decide)
  | wake envs bytes hother => exact absurd (hother.symm.trans hstate) (by decide)
  | read env len out hother => exact absurd (hother.symm.trans hstate) (by decide)

theorem listen_cases (hstate : tcb.state = .listen) (hout : RunCases tcb s out) :
    (∃ env seg peer, s = .input env seg peer ∧ hasFlag seg.hdr.thFlags thSyn = true ∧
      out = utcpOutput env.output (acceptSyn env tcb seg peer)) ∨
      out = ⟨tcb, []⟩ ∨ ∃ envs, utcpSlowtimo envs tcb = some out := by
  cases hout with
  | connect env ip port hother => exact absurd (hother.symm.trans hstate) (by decide)
  | input env seg peer out hin =>
      cases hin with
      | syn hstate' hflag => exact .inl ⟨env, seg, peer, rfl, hflag, rfl⟩
      | synAck cc hother => exact absurd (hother.symm.trans hstate) (by decide)
      | finalAck cc rest hother => exact absurd (hother.symm.trans hstate) (by decide)
      | received _ hreceiving =>
          rcases hreceiving with hother | hother <;>
            exact absurd (hother.symm.trans hstate) (by decide)
      | ignored => exact .inr (.inl rfl)
  | slowtimo envs out hslow => exact .inr (.inr ⟨envs, hslow⟩)
  | send envs bytes hother => exact absurd (hother.symm.trans hstate) (by decide)
  | wake envs bytes hother => exact absurd (hother.symm.trans hstate) (by decide)
  | read env len out hother => exact absurd (hother.symm.trans hstate) (by decide)

theorem acceptSynAck_state (env : Env) (tcb : Tcb) (seg : TcpSegment) :
    (acceptSynAck env tcb seg).state = .established := by
  simp [acceptSynAck]

theorem Listening.acceptSyn (h : Listening tcb) (env : Env) (seg : TcpSegment) (peer : Peer) :
    Answering [] (acceptSyn env tcb seg peer) := by
  have hmax : (Input.acceptSyn env tcb seg peer).sndMax = 0 := by
    obtain ⟨_, _, _, _, heq⟩ := processWindowOption_eq env seg tcb
    obtain ⟨ip, port, tIdle, rfl⟩ := h
    rw [Input.acceptSyn, heq]
    rfl
  exact ⟨rfl, hmax.symm, rfl⟩

theorem run_phase (h : Phase e) (hrun : e.run s = some (e', log)) : Phase e' := by
  obtain ⟨out, hout, htcb, hlog, hhistory⟩ := run_cases hrun
  cases h with
  | idle h hnew =>
      rw [hlog, hnew, List.nil_append] at hhistory
      rcases closed_cases h.state hout with ⟨env, ip, port, rfl⟩ | rfl
      · refine .opening ?_ ?_
        · rw [htcb]
          exact (@Idle.connect _ [] h env ip port).1
        · rw [htcb, hhistory]
          exact connect_synOut h env ip port
      · exact .idle (htcb ▸ h) hhistory
  | opening h hsyn =>
      rw [hlog] at hhistory
      rcases synSent_cases h.state hout with ⟨env, seg, peer, cc, -, -, hcc, hopened⟩ | rfl | ⟨envs, hslow⟩
      · obtain ⟨recover, hinit⟩ := congControl_init env (acceptSynAck env e.tcb seg)
        obtain rfl : _ = cc := Option.some.inj (hinit.symm.trans hcc)
        have hstate : e'.tcb.state = .established := by
          rw [htcb, hopened, utcpOutput_state]
          exact acceptSynAck_state ..
        exact .receiving (.inr hstate) fun hother => absurd (hother.symm.trans hstate) (by decide)
      · refine .opening (htcb ▸ h) ?_
        rw [htcb, hhistory, List.append_nil]
        exact hsyn
      · obtain ⟨hopening, hquiet, hnxt⟩ := slowtimo_waits hslow h
        refine .opening (htcb ▸ hopening) ?_
        rw [htcb, hhistory, hnxt, hsyn, SynOut, SynOut, segments_append, hquiet, List.append_nil,
          List.mem_append, not_or, and_assoc]
  | listening h hnew =>
      rw [hlog, hnew, List.nil_append] at hhistory
      rcases listen_cases h.state hout with ⟨env, seg, peer, -, -, rfl⟩ | rfl | ⟨envs, hslow⟩
      · have hstate : e'.tcb.state = .synRecv := by
          rw [htcb, utcpOutput_state]
          rfl
        refine .receiving (.inl hstate) fun _ _ => ?_
        rw [htcb] at hstate ⊢
        rw [hhistory]
        exact utcpOutput_answering env.output _ [] rfl (h.acceptSyn env seg peer) hstate
          (utcpOutput_silent env.output _ .rexmt)
      · exact .listening (htcb ▸ h) hhistory
      · obtain ⟨hlistening, hquiet⟩ := h.slowtimo hslow
        exact .listening (htcb ▸ hlistening) (hhistory.trans hquiet)
  | receiving h hanswers =>
      have htrace : Trace (EndpointStep (fun _ => True) fun _ => True) e log e' :=
        run_trace (fun _ _ _ _ => trivial) (fun _ _ _ => trivial) hrun
      obtain ⟨hreceiving, hanswers'⟩ :=
        htrace.invariant (I := fun e => Receiving e.tcb ∧ Answers e)
          (fun _ _ _ hstep h => endpointStep_answers hstep h.1 h.2) ⟨h, hanswers⟩
      exact .receiving hreceiving hanswers'

theorem reachable_phase (h : Reachable endpoints e) : Phase e := by
  apply h.invariant
  · exact fun _ => phase_fresh
  · rintro e s e' - hphase - ⟨log, hrun⟩
    exact run_phase hphase hrun

/-- A segment takes the endpoint into `TCP_ESTABLISHED`. -/
def Establishes (e : Endpoint) (env : Env) (seg : TcpSegment) (peer : Peer) : Prop :=
  ∃ e' log, e.run (.input env seg peer) = some (e', log) ∧ e'.tcb.state = .established

theorem Establishes.input (h : Establishes e env seg peer) :
    ∃ out, InputCases env e.tcb seg peer out ∧ out.tcb.state = .established := by
  obtain ⟨e', log, hrun, hstate⟩ := h
  obtain ⟨out, hout, hfinish⟩ := Option.map_eq_some_iff.mp hrun
  cases hfinish
  exact ⟨out, utcpInput_cases hout, hstate⟩

theorem handleReceivedData_state (h : handleReceivedData env tcb seg = some out) :
    out.tcb.state = tcb.state := by
  obtain ⟨acked, hacked, hout⟩ := Option.bind_eq_some_iff.mp h
  cases hout
  have hcontrol : Trace (ControlStep fun _ => True) _ _ _ := handleAck_trace trivial hacked
  have hdata := @handleData_trace (fun _ => True) env acked.tcb seg trivial
  calc (handleData env acked.tcb seg).tcb.state
      = acked.tcb.state :=
        hdata.invariant (I := fun t => t.state = acked.tcb.state)
          (fun _ _ _ hstep hsame => (dataStep_state hstep).trans hsame) rfl
    _ = (processWindowOption env seg tcb).state :=
        hcontrol.invariant (I := fun t => t.state = (processWindowOption env seg tcb).state)
          (fun _ _ _ hstep hsame => (controlStep_state hstep).trans hsame) rfl
    _ = tcb.state := processWindowOption_state ..

/-- The client has asked, and the answer of the server is on its way. -/
def asked : List Action := [.run .client (.connect (.still 5) 2 20), .deliver .server (.still 6) 0]

/-- The last segment of a handshake. -/
def finalAck : TcpSegment := ⟨⟨10, 20, 1, 1, 0x50, thAck, 1000, 0, 0⟩, []⟩

end Utcp.Lifecycle
