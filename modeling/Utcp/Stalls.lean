import Utcp.Accounting
import Utcp.SectionCases
import Utcp.Timeouts

/-!
No data that may be sent is left in the send buffer between critical sections.
-/

namespace Utcp.Stalls

open Traces
open TransitionSystems
open SerialNumbers
open Utcp.Tcp
open Utcp.Utils
open Utcp.Output
open Utcp.CongestionControl
open Utcp.Timers
open Utcp.Input
open Utcp.Api
open Utcp.Steps
open Utcp.Sections
open Utcp.SectionCases
open Utcp.Frames
open Utcp.Accounting
open Utcp.SendLoop
open Utcp.Timeouts

variable {env : Env} {tcb tcb' : Tcb} {seg : TcpSegment} {peer : Peer} {out : Out}
  {log : List Event} {readings : Nat → Reading}

/-- An established connection has nothing to send. -/
def Settled (tcb : Tcb) : Prop := tcb.state = .established → outputLength tcb = 0

/-- What the length of the next segment depends on. -/
structure SameSupply (tcb tcb' : Tcb) : Prop where
  state : tcb'.state = tcb.state
  iss : tcb'.iss = tcb.iss
  sndUna : tcb'.sndUna = tcb.sndUna
  sndNxt : tcb'.sndNxt = tcb.sndNxt
  sndWnd : tcb'.sndWnd = tcb.sndWnd
  cwnd : tcb'.cwnd = tcb.cwnd
  sendBufTail : tcb'.sendBufTail = tcb.sendBufTail

theorem SameSupply.trans {a b c : Tcb} (hab : SameSupply a b) (hbc : SameSupply b c) :
    SameSupply a c :=
  ⟨hbc.state.trans hab.state, hbc.iss.trans hab.iss, hbc.sndUna.trans hab.sndUna,
    hbc.sndNxt.trans hab.sndNxt, hbc.sndWnd.trans hab.sndWnd, hbc.cwnd.trans hab.cwnd,
    hbc.sendBufTail.trans hab.sendBufTail⟩

theorem SameSupply.outputLength (h : SameSupply tcb tcb') :
    outputLength tcb' = outputLength tcb := by
  have hwindow : sendWindow tcb' = sendWindow tcb := by
    rw [sendWindow, sendWindow, h.sndWnd, h.cwnd]
  have hbuffered : outputBuffered tcb' = outputBuffered tcb := by
    rw [outputBuffered, outputBuffered, h.sndNxt, h.iss, h.sendBufTail]
  rw [Output.outputLength, Output.outputLength, hwindow, hbuffered, h.state, h.sndNxt, h.sndUna]

theorem SameSupply.settled (h : SameSupply tcb tcb') (hsettled : Settled tcb) : Settled tcb' := by
  intro hstate
  rw [h.outputLength]
  exact hsettled (h.state.symm.trans hstate)

theorem outputTurn_settles {reading : Reading} (halloc : reading.alloc = true)
    (forceSend : Bool)
    (hstops : (outputTurn reading thAck forceSend tcb).2 = false) :
    outputLength (outputTurn reading thAck forceSend tcb).1.tcb = 0 := by
  have hsyn : sendingNewSynFin thAck tcb = false := rfl
  simp only [outputTurn, utcpSendSegment] at hstops ⊢
  rw [hsyn, if_pos halloc] at hstops ⊢
  split at hstops
  · rename_i hquiet
    rw [if_pos hquiet]
    exact hquiet.1
  · rename_i hsends
    rw [if_neg hsends]
    have hzero : outputLength tcb = 0 := by simpa using hstops
    rw [hzero]
    exact (outputLength_cancelDelack tcb).trans hzero

theorem loopRuns_settles (halloc : ∀ i, (readings i).alloc = true) {turn : Nat} {forceSend : Bool}
    (hstate : tcb.state = .established) (h : LoopRuns readings thAck turn forceSend tcb out) :
    outputLength out.tcb = 0 := by
  induction h with
  | @stop turn forceSend tcb out hturn =>
      have hend := @outputTurn_settles tcb _ (halloc turn) forceSend
      rw [hturn] at hend
      exact hend rfl
  | @again turn forceSend tcb out rest hturn _ ih =>
      have hsame := outputTurn_sameWindow (readings turn) forceSend tcb
      have hflags : tcpOutflags tcb.state = thAck := congrArg tcpOutflags hstate
      rw [hflags, hturn] at hsame
      exact ih (hsame.state.trans hstate)

/-- After `utcp_output` nothing is left that it might send. -/
theorem utcpOutput_settles (halloc : ∀ i, (readings i).alloc = true) (tcb : Tcb) :
    Settled (utcpOutput readings tcb).tcb := by
  intro hstate
  have hstate' : tcb.state = .established := (utcpOutput_state readings tcb).symm.trans hstate
  exact @loopRuns_settles { tcb with tfAcknow := false } _ _ halloc _ _ hstate'
    (utcpOutput_runs readings hstate')

theorem output_settles (halloc : ∀ i, (readings i).alloc = true) (tcb : Tcb) (log : List Event) :
    Settled (Out.mk (utcpOutput readings tcb).tcb log).tcb :=
  utcpOutput_settles halloc tcb

theorem utcpOutput_silent (readings : Nat → Reading) (hstate : tcb.state = .established)
    (hzero : outputLength tcb = 0) (hnone : tcb.tfAcknow = false) :
    (utcpOutput readings tcb).log = [] := by
  have hflags : tcpOutflags tcb.state = thAck := congrArg tcpOutflags hstate
  have hquiet : outputLength { tcb with tfAcknow := false } = 0 := hzero
  have hsyn : sendingNewSynFin thAck { tcb with tfAcknow := false } = false := rfl
  have hturn : outputTurn (readings 0) thAck false { tcb with tfAcknow := false } =
      (⟨{ tcb with tfAcknow := false }, []⟩, false) := by
    simp only [outputTurn]
    rw [hquiet, hsyn]
    rfl
  simp only [utcpOutput]
  rw [hflags, hnone, outputLoop, hturn]
  rfl

/-- The window of the peer or of congestion control is full. -/
def WindowFull (tcb : Tcb) : Prop := (sendWindow tcb).toNat ≤ (tcb.sndNxt - tcb.sndUna).toNat

/-- What the send buffer and the window allow beyond `snd_nxt`. -/
def sendable (tcb : Tcb) : Nat :=
  min (outputBuffered tcb).toNat ((sendWindow tcb).toNat - (tcb.sndNxt - tcb.sndUna).toNat)

/-- Data is in flight, and less than a full segment may be sent. -/
def Suppressed (tcb : Tcb) : Prop :=
  0 < (tcb.sndNxt - tcb.sndUna).toNat ∧ 0 < sendable tcb ∧ sendable tcb < mss.toNat

theorem outputLength_zero_iff (hstate : tcb.state = .established) :
    outputLength tcb = 0 ↔ WindowFull tcb ∨ outputBuffered tcb = 0 ∨ Suppressed tcb := by
  have hmss := mss_toNat
  have hzero : ∀ x : U32, x = 0 ↔ x.toNat = 0 :=
    fun x => ⟨fun h => h ▸ rfl, fun h => BitVec.eq_of_toNat_eq h⟩
  rw [outputLength, if_pos hstate, WindowFull, Suppressed, sendable]
  dsimp only
  split
  · rename_i hopen
    have hopen' : (tcb.sndNxt - tcb.sndUna).toNat < (sendWindow tcb).toNat := hopen
    have hroom := toNat_sub_of_ge (Nat.le_of_lt hopen')
    generalize hlen : (if mss < _ then mss else _ : U32) = dataLength
    have hlen' : dataLength.toNat = min mss.toNat (min (outputBuffered tcb).toNat
        ((sendWindow tcb).toNat - (tcb.sndNxt - tcb.sndUna).toNat)) := by
      rw [← hlen, ← hroom]
      exact (smaller_toNat _ _).trans (congrArg (min mss.toNat) (smaller_toNat _ _))
    rw [hzero (outputBuffered tcb)]
    split
    · rename_i hnagle
      have hshort : dataLength.toNat < mss.toNat := hnagle.2.1
      have hflight : 0 < (tcb.sndNxt - tcb.sndUna).toNat := hnagle.2.2
      have hpos : 0 < dataLength.toNat := hnagle.1
      exact iff_of_true rfl (.inr (.inr ⟨hflight, by omega, by omega⟩))
    · rename_i hnagle
      have hnagle' : ¬ (0 < dataLength.toNat ∧ dataLength.toNat < mss.toNat ∧
          0 < (tcb.sndNxt - tcb.sndUna).toNat) := hnagle
      rw [hzero]
      omega
  · rename_i hshut
    have hshut' : ¬ (tcb.sndNxt - tcb.sndUna).toNat < (sendWindow tcb).toNat := hshut
    exact iff_of_true rfl (.inl (by omega))

/-- The acknowledgment half lets more be sent: new data is acknowledged, or the
window of the peer grows. -/
def Opens (tcb : Tcb) (hdr : TcpHdr) : Prop :=
  validAck tcb hdr.thAck = true ∨ hdr.thAck = tcb.sndUna ∧ getScaledWin tcb hdr > tcb.sndWnd

/-- The segment has in-order data for which the receive buffer has no room. -/
def Overflows (tcb : Tcb) (seg : TcpSegment) : Prop :=
  ∃ data, Carries seg tcb.rcvNxt data ∧
    ¬ data.length ≤ (recvBufSize - bufUsed tcb - tcb.oooBytes).toNat

theorem handleAck_sameReceive (h : handleAck env tcb seg = some out) :
    SameReceive tcb out.tcb := by
  have htrace : Trace (ControlStep fun _ => True) tcb out.log out.tcb :=
    handleAck_trace trivial h
  exact controlTrace_sameReceive htrace

theorem handleAck_same (hdata : payload seg ≠ []) (hshut : ¬ Opens tcb seg.hdr)
    (h : handleAck env tcb seg = some out) : out.tcb = tcb := by
  cases handleAck_cases h with
  | acked cc hack hcc => exact absurd (.inl hack) hshut
  | window hack hsame hlarger => exact absurd (.inr ⟨hsame, hlarger⟩) hshut
  | duplicate _ dupacks hack hsame hsmaller hbare => exact absurd hbare hdata
  | ignored => rfl

theorem handleData_settles (halloc : EnvAllocates env) (seg : TcpSegment)
    (hfull : Overflows tcb seg → Settled tcb) : Settled (handleData env tcb seg).tcb := by
  have hcases : DataCases env tcb seg (handleData env tcb seg) := handleData_cases
  generalize handleData env tcb seg = out at hcases ⊢
  cases hcases with
  | bare => exact utcpOutput_settles halloc.output tcb
  | repeated => exact utcpOutput_settles halloc.output _
  | accepted data => exact output_settles halloc.output _ _
  | full data hdata hroom => exact hfull ⟨data, hdata, hroom⟩
  | early seqNum data => exact output_settles halloc.output _ _

theorem processWindowOption_supply (env : Env) (seg : TcpSegment) (tcb : Tcb) :
    SameSupply tcb (processWindowOption env seg tcb) ∧
      SameReceive tcb (processWindowOption env seg tcb) := by
  obtain ⟨_, _, _, _, heq⟩ := processWindowOption_eq env seg tcb
  rw [heq]
  exact ⟨⟨rfl, rfl, rfl, rfl, rfl, rfl, rfl⟩, ⟨rfl, rfl, rfl, rfl, rfl, rfl, rfl⟩⟩

/-- The segment opens the window and overflows the receive buffer, so that
`handle_received_data` returns before `utcp_output`. -/
def StopsShort (env : Env) (tcb : Tcb) (seg : TcpSegment) : Prop :=
  Opens (processWindowOption env seg tcb) seg.hdr ∧ Overflows tcb seg

theorem handleReceivedData_settles (halloc : EnvAllocates env) (hgoes : ¬ StopsShort env tcb seg)
    (hsettled : Settled tcb) (h : handleReceivedData env tcb seg = some out) :
    Settled out.tcb := by
  obtain ⟨acked, hacked, hout⟩ := Option.bind_eq_some_iff.mp h
  cases hout
  obtain ⟨hsupply, hreceive⟩ := processWindowOption_supply env seg tcb
  apply handleData_settles halloc
  rintro ⟨data, hdata, hroom⟩
  have hsame := hreceive.trans (handleAck_sameReceive hacked)
  have hoverflows : Overflows tcb seg := by
    rw [hsame.rcvNxt] at hdata
    rw [hsame.bufUsed, hsame.oooBytes] at hroom
    exact ⟨data, hdata, hroom⟩
  have hshut : ¬ Opens (processWindowOption env seg tcb) seg.hdr :=
    fun hopens => hgoes ⟨hopens, hoverflows⟩
  have hpayload : payload seg ≠ [] := by
    obtain ⟨hpos, hle⟩ := hdata.length_pos
    apply List.ne_nil_of_length_pos
    omega
  rw [handleAck_same hpayload hshut hacked]
  exact hsupply.settled hsettled

theorem tcbStep_sendBufTail {In : TcpSegment → Prop} {Ex : U8 → Prop}
    (h : TcbStep In Ex tcb log tcb') : tcb'.sendBufTail = tcb.sendBufTail := by
  cases h with
  | output h => exact (outputStep_sameWindow h).sendBufTail
  | receive _ h => exact (receiveStep_sameSend h).sendBufTail
  | ack _ h =>
      cases h with
      | options env seg => exact (processWindowOption_sameSend env seg tcb).sendBufTail
      | sample rttUs =>
          obtain ⟨_, _, _, heq⟩ := utcpXmitTimer_eq tcb rttUs
          rw [heq]
      | rearm env =>
          obtain ⟨_, _, heq⟩ := rearmRexmt_eq env tcb
          rw [heq]
          rfl
      | ack => rfl
      | window => rfl
      | congestion => rfl
      | retransmit => rfl
  | timer h =>
      cases h with
      | rexmt env recover =>
          obtain ⟨_, _, heq⟩ := expireRexmt_eq env tcb recover
          rw [heq]
      | clock => rfl
      | countDown => rfl
      | other => rfl
  | opening h =>
      cases h with
      | connect => rfl
      | syn env seg peer => exact (processWindowOption_sameSend env seg tcb).sendBufTail
      | synAck env seg => exact (processWindowOption_sameSend env seg _).sendBufTail
      | finalAck => rfl

theorem tcbStep_established {In : TcpSegment → Prop} {Ex : U8 → Prop}
    (hstate : tcb.state = .established) (h : TcbStep In Ex tcb log tcb') :
    tcb'.state = .established := by
  cases h with
  | output h => exact (outputStep_state h).trans hstate
  | receive _ h => exact (receiveStep_sameSend h).state.trans hstate
  | ack _ h => exact (ackStep_state h).trans hstate
  | timer h => exact (clockTrace_state (.single (.timer h))).trans hstate
  | opening h =>
      cases h with
      | connect ip port hclosed => exact absurd (hstate.symm.trans hclosed) (by decide)
      | syn env seg peer hseg hlisten => exact absurd (hstate.symm.trans hlisten) (by decide)
      | synAck env seg hseg hsent => exact absurd (hstate.symm.trans hsent) (by decide)
      | finalAck seg hseg hrecv => exact absurd (hstate.symm.trans hrecv) (by decide)

/-- `send_buf_tail` counts the bytes written, and none is written before
`TCP_ESTABLISHED`. -/
structure Counted (e : Endpoint) : Prop where
  tail : e.tcb.sendBufTail = BitVec.ofNat 32 e.written.length
  opening : e.tcb.state ≠ .established → e.written = []

theorem endpointStep_counted {In : TcpSegment → Prop} {Ex : U8 → Prop} {e e' : Endpoint}
    (h : EndpointStep In Ex e log e') (hcounted : Counted e) : Counted e' := by
  cases h with
  | tcb h =>
      refine ⟨(tcbStep_sendBufTail h).trans hcounted.tail, fun hnot => ?_⟩
      exact hcounted.opening fun hstate => hnot (tcbStep_established hstate h)
  | call => exact ⟨hcounted.tail, hcounted.opening⟩
  | write n hstate hroom hn =>
      refine ⟨?_, fun hnot => absurd hstate hnot⟩
      rw [List.length_append, BitVec.ofNat_add, ← hcounted.tail]
      rfl
  | read n hstate hn =>
      refine ⟨?_, fun hnot => absurd ((takeBytes_state ..).trans hstate) hnot⟩
      obtain ⟨_, _, heq⟩ := takeBytes_eq e.tcb n
      rw [heq]
      exact hcounted.tail

theorem run_counted {e e' : Endpoint} {s : Section} (hcounted : Counted e)
    (h : e.run s = some (e', log)) : Counted e' := by
  have htrace : Trace (EndpointStep (fun _ => True) fun _ => True) e log e' :=
    run_trace (fun _ _ _ _ => trivial) (fun _ _ _ => trivial) h
  exact htrace.invariant (fun _ _ _ hstep => endpointStep_counted hstep) hcounted

theorem settled_unwritten (h : tcb.sendBufTail = 0) : Settled tcb := by
  intro hstate
  have hbuffered : outputBuffered tcb = 0 := by
    rw [outputBuffered, h]
    exact if_neg BitVec.not_lt_zero
  exact (outputLength_zero_iff hstate).mpr (.inr (.inl hbuffered))

/-- Every segment gets its memory, and none that opens the window of an
established connection overflows the receive buffer. -/
def KeepsSending (e : Endpoint) (s : Section) : Prop :=
  Allocates e s ∧
    ∀ env seg peer, s = .input env seg peer → e.tcb.state = .established →
      ¬ StopsShort env e.tcb seg

theorem tickTimer_settles {timer : Timer} (halloc : EnvAllocates env)
    (h : TickCases env tcb timer out) (hsettled : Settled tcb) : Settled out.tcb := by
  have hclock : ∀ ticks : U16, SameSupply tcb (setTimer tcb timer ticks) :=
    fun _ => ⟨rfl, rfl, rfl, rfl, rfl, rfl, rfl⟩
  cases h with
  | idle => exact hsettled
  | countDown => exact (hclock _).settled hsettled
  | rexmt => exact output_settles halloc.output _ _
  | delack => exact output_settles halloc.output _ _
  | other => exact (hclock _).settled hsettled

theorem utcpInput_settles (halloc : EnvAllocates env)
    (hgoes : tcb.state = .established → ¬ StopsShort env tcb seg)
    (hsettled : Settled tcb) (hunwritten : tcb.state ≠ .established → Settled out.tcb)
    (h : InputCases env tcb seg peer out) : Settled out.tcb := by
  cases h with
  | syn hstate hflag => exact utcpOutput_settles halloc.output _
  | synAck => exact output_settles halloc.output _ _
  | finalAck cc rest hstate =>
      apply hunwritten
      rw [hstate]
      decide
  | received _ hstate hnot hrest =>
      rcases hstate with hstate | hstate
      · apply hunwritten
        rw [hstate]
        decide
      · exact handleReceivedData_settles halloc (hgoes hstate) hsettled hrest
  | ignored => exact hsettled

theorem input_written {e e' : Endpoint} (h : e.run (.input env seg peer) = some (e', log)) :
    e'.written = e.written := by
  obtain ⟨out, -, hfinish⟩ := Option.map_eq_some_iff.mp h
  exact (congrArg (fun result => result.1.written) hfinish).symm

theorem run_settles {e e' : Endpoint} {s : Section} (hcounted : Counted e)
    (hgoes : KeepsSending e s) (hsettled : Settled e.tcb) (h : e.run s = some (e', log)) :
    Settled e'.tcb := by
  have hcomposes : Composes fun tcb _ tcb' => Settled tcb → Settled tcb' :=
    ⟨fun _ h => h, fun hab hbc h => hbc (hab h)⟩
  obtain ⟨halloc, hgoes⟩ := hgoes
  have hcounted' := run_counted hcounted h
  obtain ⟨out, hcases, htcb, -, -⟩ := run_cases h
  cases hcases with
  | connect env ip port hclosed =>
      rw [htcb]
      exact utcpOutput_settles halloc.output _
  | input env seg peer _ hinput =>
      have hunwritten : e.tcb.state ≠ .established → Settled e'.tcb := by
        intro hnot
        apply settled_unwritten
        rw [hcounted'.tail, input_written h, hcounted.opening hnot]
        rfl
      rw [htcb] at hunwritten ⊢
      exact utcpInput_settles halloc (hgoes env seg peer rfl) hsettled hunwritten hinput
  | slowtimo envs _ hslow =>
      rw [htcb]
      refine utcpSlowtimo_composes hcomposes ?_ ?_ hslow hsettled
      · exact fun timer tcb out htick => tickTimer_settles (halloc timer) htick
      · intro hsettled
        have hclock : SameSupply e.tcb (ticked e.tcb) := ⟨rfl, rfl, rfl, rfl, rfl, rfl, rfl⟩
        exact hclock.settled hsettled
  | send envs bytes hstate =>
      rw [htcb]
      refine utcpSend_composes hcomposes ?_ e.tcb bytes hsettled
      exact fun turn tcb chunk _ => utcpOutput_settles (halloc turn).output _
  | wake envs bytes hstate =>
      rw [htcb]
      refine utcpSend_composes hcomposes ?_ e.tcb bytes hsettled
      exact fun turn tcb chunk _ => utcpOutput_settles (halloc turn).output _
  | read env len _ hstate hread =>
      rw [htcb]
      cases hread with
      | update n => exact output_settles halloc.output _ _
      | quiet n =>
          have htake : SameSupply e.tcb (takeBytes e.tcb n) := by
            obtain ⟨_, _, heq⟩ := takeBytes_eq e.tcb n
            rw [heq]
            exact ⟨rfl, rfl, rfl, rfl, rfl, rfl, rfl⟩
          exact htake.settled hsettled

theorem reached_settled {e : Endpoint} (h : ReachedBy endpoints KeepsSending e) :
    Counted e ∧ Settled e.tcb := by
  apply h.invariant
  · rintro e ⟨ip, port, rfl | rfl⟩
    · exact ⟨⟨rfl, fun _ => rfl⟩, by rintro ⟨⟩⟩
    · exact ⟨⟨rfl, fun _ => rfl⟩, by rintro ⟨⟩⟩
  · rintro e s e' - ⟨hcounted, hsettled⟩ hgoes ⟨log, hrun⟩
    exact ⟨run_counted hcounted hrun, run_settles hcounted hgoes hsettled hrun⟩

/-- Every byte written has a sequence number before `snd_nxt`. -/
def AllSent (e : Endpoint) : Prop :=
  ∀ i < e.written.length, 1 + i < (e.tcb.sndNxt - e.tcb.iss).toNat

theorem allSent_of_buffered {e : Endpoint} (hcounted : Counted e)
    (hsmall : e.handed.length < 2 ^ 31 - 1) (hzero : outputBuffered e.tcb = 0) : AllSent e := by
  have htail : e.tcb.sendBufTail.toNat = e.written.length := by
    have hle : e.written.length ≤ e.handed.length := by
      rw [Endpoint.handed, List.length_append]
      omega
    rw [hcounted.tail, BitVec.toNat_ofNat, Nat.mod_eq_of_lt (by omega)]
  have hrest : ∀ sent : U32, (if e.tcb.sendBufTail > sent then e.tcb.sendBufTail - sent else 0) = 0 →
      e.written.length ≤ sent.toNat := by
    intro sent h
    rw [← htail]
    split at h
    · rw [eq_of_toNat_sub_eq_zero (congrArg BitVec.toNat h)]
    · rename_i hge
      exact Nat.le_of_not_lt hge
  have hsent := hrest _ hzero
  intro i hi
  split at hsent
  · rename_i hbeyond
    have hpos : 0 < (e.tcb.sndNxt - e.tcb.iss).toNat :=
      ((toInt_pos_iff _).mp (of_decide_eq_true hbeyond)).1
    have hone : (e.tcb.sndNxt - e.tcb.iss - 1).toNat = (e.tcb.sndNxt - e.tcb.iss).toNat - 1 :=
      toNat_sub_of_ge hpos
    omega
  · have hnone : e.written.length ≤ 0 := hsent
    omega

/-- No sendable data is left stranded: another call of `utcp_output` would do
nothing, for one of three reasons. -/
theorem nothing_stranded {e : Endpoint} (h : ReachedBy endpoints KeepsSending e)
    (hsmall : e.handed.length < 2 ^ 31 - 1) (hstate : e.tcb.state = .established) :
    (∀ readings, (utcpOutput readings e.tcb).log = []) ∧
      (WindowFull e.tcb ∨ AllSent e ∨ Suppressed e.tcb) := by
  obtain ⟨hcounted, hsettled⟩ := reached_settled h
  have hzero := hsettled hstate
  have hnone : e.tcb.tfAcknow = false := reachable_tfAcknow h.reachable
  refine ⟨fun readings => utcpOutput_silent readings hstate hzero hnone, ?_⟩
  rcases (outputLength_zero_iff hstate).mp hzero with hfull | hsent | hnagle
  · exact .inl hfull
  · exact .inr (.inl (allSent_of_buffered hcounted hsmall hsent))
  · exact .inr (.inr hnagle)

def peerSegment (seq : U32) (flags : U8) (win : U16) (data : List U8) : TcpSegment :=
  ⟨⟨0, 0, seq, 1, 0x50, flags, win, 0, 0⟩, data⟩

def arrives (seg : TcpSegment) : Section := .input (.still 0) seg ⟨0, 0⟩

theorem allocates_arrives (e : Endpoint) (seg : TcpSegment) : Allocates e (arrives seg) :=
  envAllocates_still 0

theorem outputTurn_idle (reading : Reading) (forceSend : Bool) (hzero : outputLength tcb = 0) :
    (outputTurn reading thAck forceSend tcb).2 = false ∧
      SameSupply tcb (outputTurn reading thAck forceSend tcb).1.tcb := by
  have hsyn : sendingNewSynFin thAck tcb = false := rfl
  have hcancel : SameSupply tcb (cancelDelack tcb) := by
    unfold cancelDelack
    split
    · exact ⟨rfl, rfl, rfl, rfl, rfl, rfl, rfl⟩
    · exact ⟨rfl, rfl, rfl, rfl, rfl, rfl, rfl⟩
  simp only [outputTurn]
  rw [hsyn, hzero]
  split
  · exact ⟨rfl, ⟨rfl, rfl, rfl, rfl, rfl, rfl, rfl⟩⟩
  · split
    · exact ⟨rfl, hcancel⟩
    · exact ⟨rfl, hcancel⟩

theorem utcpOutput_idle (readings : Nat → Reading) (hstate : tcb.state = .established)
    (hzero : outputLength tcb = 0) : SameSupply tcb (utcpOutput readings tcb).tcb := by
  have hidle := @outputTurn_idle { tcb with tfAcknow := false } (readings 0) tcb.tfAcknow hzero
  have hruns := utcpOutput_runs readings hstate
  generalize utcpOutput readings tcb = result at hruns ⊢
  obtain ⟨hmore, hsame⟩ := hidle
  cases hruns with
  | stop hturn =>
      rw [hturn] at hsame
      exact ⟨hsame.state, hsame.iss, hsame.sndUna, hsame.sndNxt, hsame.sndWnd, hsame.cwnd,
        hsame.sendBufTail⟩
  | again hturn =>
      rw [hturn] at hmore
      cases hmore

theorem peerSegment_offset (seq : U32) (flags : U8) (win : U16) (data : List U8) :
    dataOffset (peerSegment seq flags win data).hdr = sizeofTcpHdr := by
  have hoffset : ((0x50 : U8) >>> 4).toNat * 4 = sizeofTcpHdr := by decide
  exact hoffset

theorem peerSegment_payload (seq : U32) (flags : U8) (win : U16) (data : List U8) :
    payload (peerSegment seq flags win data) = data := by
  rw [payload, peerSegment_offset, max_self, Nat.sub_self]
  rfl

/-- The block after a segment that acknowledges nothing new and may widen the window. -/
def widened (tcb : Tcb) (win : U16) : Tcb :=
  if win.setWidth 32 > tcb.sndWnd then { tcb with sndWnd := win.setWidth 32 } else tcb

theorem handleAck_widened (env : Env) {seq : U32} {win : U16} {data : List U8}
    (huna : tcb.sndUna = 1) (hdata : data ≠ []) (hscale : tcb.scaleEnabled = false) :
    handleAck env tcb (peerSegment seq thAck win data) = some ⟨widened tcb win, []⟩ := by
  have hsame : (peerSegment seq thAck win data).hdr.thAck = tcb.sndUna := huna.symm
  have hack : validAck tcb (peerSegment seq thAck win data).hdr.thAck = false :=
    validAck_self hsame
  have hpayload := peerSegment_payload seq thAck win data
  have hwin : getScaledWin tcb (peerSegment seq thAck win data).hdr = win.setWidth 32 := by
    rw [getScaledWin, hscale]
    rfl
  rw [handleAck, if_neg (by rw [hack]; decide), if_pos hsame]
  simp only [handleSameAck]
  rw [hwin, hpayload, widened]
  split
  · rfl
  · rw [if_neg fun hbare => hdata hbare.1]

theorem handleData_next (env : Env) {seg : TcpSegment} (hseq : seg.hdr.thSeq = tcb.rcvNxt)
    (hdata : payload seg ≠ []) :
    handleData env tcb seg = placeData env tcb tcb.rcvNxt (payload seg) := by
  have hnew : seqLt tcb.rcvNxt tcb.rcvNxt = false := by
    rw [seqLt, BitVec.sub_self]
    rfl
  simp only [handleData]
  rw [hseq, hnew, if_neg hdata, if_neg Bool.false_ne_true]

theorem handleData_inOrder (env : Env) {win : U16} {data : List U8} (hdata : data ≠ []) :
    handleData env tcb (peerSegment tcb.rcvNxt thAck win data) =
      placeData env tcb tcb.rcvNxt data := by
  have hpayload := peerSegment_payload tcb.rcvNxt thAck win data
  rw [handleData_next env rfl (by rw [hpayload]; exact hdata), hpayload]

theorem run_arrives {e : Endpoint} {win : U16} {data : List U8}
    (hstate : e.tcb.state = .established) (huna : e.tcb.sndUna = 1) (hdata : data ≠ [])
    (hscale : e.tcb.scaleEnabled = false) :
    e.run (arrives (peerSegment e.tcb.rcvNxt thAck win data)) =
      some (e.finish (placeData (.still 0) (widened e.tcb win) e.tcb.rcvNxt data)) := by
  have hsame : (widened e.tcb win).rcvNxt = e.tcb.rcvNxt := by
    unfold widened
    split <;> rfl
  have hoptions : processWindowOption (.still 0) (peerSegment e.tcb.rcvNxt thAck win data) e.tcb =
      e.tcb := by
    rw [processWindowOption, peerSegment_offset, if_neg (Nat.lt_irrefl _)]
  have hplaced := @handleData_inOrder (widened e.tcb win) (.still 0) win data hdata
  rw [hsame] at hplaced
  simp only [arrives, Endpoint.run, utcpInput]
  rw [hstate]
  simp only [handleReceivedData]
  rw [hoptions, handleAck_widened _ huna hdata hscale]
  simp only [Option.bind_eq_bind, Option.bind_some, Option.map_some]
  rw [hplaced]
  rfl

/-- A connection with one byte to send, no window, and `n` bytes for the reader. -/
structure Filled (n : Nat) (e : Endpoint) : Prop where
  reached : ReachedBy endpoints Allocates e
  handed : e.handed.length = 1
  state : e.tcb.state = .established
  iss : e.tcb.iss = 0
  sndUna : e.tcb.sndUna = 1
  sndNxt : e.tcb.sndNxt = 1
  sndWnd : e.tcb.sndWnd = 0
  cwnd : e.tcb.cwnd = mss * iw
  sendBufTail : e.tcb.sendBufTail = 1
  scaleEnabled : e.tcb.scaleEnabled = false
  used : bufUsed e.tcb = BitVec.ofNat 32 n
  oooHead : e.tcb.oooHead = []
  oooBytes : e.tcb.oooBytes = 0

theorem scheduleAck_eq (tcb : Tcb) (gapFilled : Bool) :
    ∃ tTimer tfAcknow tfDelack,
      scheduleAck tcb gapFilled = { tcb with tTimer, tfAcknow, tfDelack } := by
  unfold scheduleAck
  split
  · exact ⟨_, _, _, rfl⟩
  · exact ⟨_, _, _, rfl⟩

theorem acceptInOrder_eq (tcb : Tcb) (data : List U8) (hqueue : tcb.oooHead = []) :
    ∃ tTimer tfAcknow tfDelack,
      (acceptInOrder tcb data).tcb =
        { acceptBytes tcb data with oooHead := [], tTimer, tfAcknow, tfDelack } := by
  have hdrain : (drainOooQueue (acceptBytes tcb data) (acceptBytes tcb data).oooHead).tcb =
      { acceptBytes tcb data with oooHead := [] } := by
    have hqueue' : (acceptBytes tcb data).oooHead = [] := hqueue
    rw [hqueue']
    rfl
  have hplaced : (acceptInOrder tcb data).tcb = scheduleAck _ _ := rfl
  obtain ⟨tTimer, tfAcknow, tfDelack, heq⟩ := scheduleAck_eq
    (drainOooQueue (acceptBytes tcb data) (acceptBytes tcb data).oooHead).tcb
    ((drainOooQueue (acceptBytes tcb data) (acceptBytes tcb data).oooHead).tcb.rcvNxt ≠
      (acceptBytes tcb data).rcvNxt)
  rw [hplaced, heq, hdrain]
  exact ⟨tTimer, tfAcknow, tfDelack, rfl⟩

theorem acceptInOrder_supply (tcb : Tcb) (data : List U8) (hqueue : tcb.oooHead = []) :
    SameSupply tcb (acceptInOrder tcb data).tcb ∧
      bufUsed (acceptInOrder tcb data).tcb = bufUsed tcb + BitVec.ofNat 32 data.length ∧
      (acceptInOrder tcb data).tcb.oooHead = [] ∧
      (acceptInOrder tcb data).tcb.oooBytes = tcb.oooBytes ∧
      (acceptInOrder tcb data).tcb.scaleEnabled = tcb.scaleEnabled := by
  obtain ⟨_, _, _, heq⟩ := acceptInOrder_eq tcb data hqueue
  rw [heq]
  exact ⟨⟨rfl, rfl, rfl, rfl, rfl, rfl, rfl⟩, bufUsed_acceptBytes tcb data, rfl, rfl, rfl⟩

theorem filled_next {n k : Nat} {e : Endpoint} {s : Section} (h : Filled n e)
    (halloc : Allocates e s) (hrun : e.run s = some (e.finish out))
    (hsupply : SameSupply e.tcb out.tcb) (hscale : out.tcb.scaleEnabled = false)
    (hused : bufUsed out.tcb = BitVec.ofNat 32 k) (hqueue : out.tcb.oooHead = [])
    (hbytes : out.tcb.oooBytes = 0) : Filled k (e.finish out).1 where
  reached := .step h.reached halloc ⟨_, hrun⟩
  handed := h.handed
  state := hsupply.state.trans h.state
  iss := hsupply.iss.trans h.iss
  sndUna := hsupply.sndUna.trans h.sndUna
  sndNxt := hsupply.sndNxt.trans h.sndNxt
  sndWnd := hsupply.sndWnd.trans h.sndWnd
  cwnd := hsupply.cwnd.trans h.cwnd
  sendBufTail := hsupply.sendBufTail.trans h.sendBufTail
  scaleEnabled := hscale
  used := hused
  oooHead := hqueue
  oooBytes := hbytes

theorem filled_room {n : Nat} {e : Endpoint} (h : Filled n e) (hn : n ≤ recvBufSize.toNat) :
    (recvBufSize - bufUsed e.tcb - e.tcb.oooBytes).toNat = recvBufSize.toNat - n := by
  have hsize : recvBufSize.toNat = 1048576 := rfl
  have hused : (bufUsed e.tcb).toNat = n := by
    rw [h.used, BitVec.toNat_ofNat, Nat.mod_eq_of_lt (by omega)]
  have hzero : ∀ x : U32, x - 0 = x := fun x => BitVec.sub_zero x
  rw [h.oooBytes, hzero, toNat_sub_of_ge (by omega), hused]

theorem filled_step {n : Nat} {e : Endpoint} (h : Filled n e) {data : List U8} (hdata : data ≠ [])
    (hroom : n + data.length ≤ recvBufSize.toNat) :
    ∃ e', Filled (n + data.length) e' := by
  have hwiden : widened e.tcb 0 = e.tcb := by
    rw [widened, h.sndWnd]
    rfl
  have hfits : data.length ≤ (recvBufSize - bufUsed e.tcb - e.tcb.oooBytes).toNat := by
    rw [filled_room h (by omega)]
    omega
  have hrun := @run_arrives e 0 data h.state h.sndUna hdata h.scaleEnabled
  rw [hwiden, placeData_fits _ hfits] at hrun
  obtain ⟨hsupply, hused, hqueue, hbytes, hscale⟩ := acceptInOrder_supply e.tcb data h.oooHead
  have hfull : outputLength e.tcb = 0 := by
    apply (outputLength_zero_iff h.state).mpr
    left
    rw [WindowFull, sendWindow_toNat, h.sndWnd]
    exact Nat.le_trans (Nat.min_le_left _ _) (Nat.zero_le _)
  have hidle := utcpOutput_idle (Env.still 0).output (hsupply.state.trans h.state)
    (hsupply.outputLength.trans hfull)
  have hreceive := outputTrace_sameReceive
    (utcpOutput_trace (Env.still 0).output (acceptInOrder e.tcb data).tcb)
  have hscale' : (utcpOutput (Env.still 0).output (acceptInOrder e.tcb data).tcb).tcb.scaleEnabled =
      (acceptInOrder e.tcb data).tcb.scaleEnabled := by
    obtain ⟨_, _, _, _, _, _, _, heq⟩ :=
      utcpOutput_eq (Env.still 0).output (acceptInOrder e.tcb data).tcb
    rw [heq]
  refine ⟨_, filled_next h (allocates_arrives e _) hrun (hsupply.trans hidle) ?_ ?_ ?_ ?_⟩
  · exact hscale'.trans (hscale.trans h.scaleEnabled)
  · rw [hreceive.bufUsed, hused, h.used, BitVec.ofNat_add]
  · exact hreceive.oooHead.trans hqueue
  · exact hreceive.oooBytes.trans (hbytes.trans h.oooBytes)

def fresh : Endpoint := .start (utcpListen (utcpBind utcpSocket 0 0))

/-- The peer opens the connection without a window, and a byte is written. -/
def opening : List Section :=
  [arrives (peerSegment 7 thSyn 0 []), arrives (peerSegment 8 thAck 0 []),
    .send (fun _ => .still 0) [5]]

theorem opening_keepsSending (s : Section) (h : s ∈ opening) (e : Endpoint) :
    KeepsSending e s := by
  have hbare : ∀ seq flags win, KeepsSending e (arrives (peerSegment seq flags win [])) := by
    intro seq flags win
    refine ⟨allocates_arrives e _, ?_⟩
    rintro env seg peer hinput - ⟨-, data, hdata, -⟩
    cases hinput
    have hpos := hdata.length_pos
    rw [peerSegment_payload] at hpos
    exact absurd (Nat.lt_of_lt_of_le hpos.1 hpos.2) (Nat.not_lt_zero 0)
  simp only [opening, List.mem_cons, List.not_mem_nil, or_false] at h
  rcases h with rfl | rfl | rfl
  · exact hbare 7 thSyn 0
  · exact hbare 8 thAck 0
  · exact ⟨fun _ => envAllocates_still 0, by rintro env seg peer ⟨⟩⟩

/-- The connection waits for a window. -/
theorem nothing_stranded_waiting :
    ∃ e, ReachedBy endpoints KeepsSending e ∧ e.written = [5] ∧
      (utcpOutput (Env.still 0).output e.tcb).log = [] ∧
      (WindowFull e.tcb ∨ AllSent e ∨ Suppressed e.tcb) := by
  have hends : (runAll Endpoint.next fresh opening).map (fun e =>
      (e.written, e.handed.length, e.tcb.state)) = some ([5], 1, .established) := by
    decide +kernel
  obtain ⟨e, hrun, hends⟩ := Option.map_eq_some_iff.mp hends
  obtain ⟨hwritten, hends⟩ := Prod.mk.inj hends
  obtain ⟨hhanded, hstate⟩ := Prod.mk.inj hends
  have hreach : ReachedBy endpoints KeepsSending e :=
    .runAllowed (fun _ _ _ => endpoints_next) opening opening_keepsSending
      (.init ⟨0, 0, .inr rfl⟩) hrun
  obtain ⟨hsilent, hreason⟩ := nothing_stranded hreach (by omega) hstate
  exact ⟨e, hreach, hwritten, hsilent _, hreason⟩

theorem filled_start : ∃ e, Filled 0 e := by
  have hends : (runAll Endpoint.next fresh opening).map (fun e =>
      (e.handed.length, e.tcb.state, e.tcb.scaleEnabled, e.tcb.oooHead.length,
        [e.tcb.iss, e.tcb.sndUna, e.tcb.sndNxt, e.tcb.sndWnd, e.tcb.cwnd, e.tcb.sendBufTail,
          bufUsed e.tcb, e.tcb.oooBytes])) =
      some (1, .established, false, 0, [0, 1, 1, 0, mss * iw, 1, 0, 0]) := by
    decide +kernel
  obtain ⟨e, hrun, hends⟩ := Option.map_eq_some_iff.mp hends
  simp only [Prod.mk.injEq, List.cons.injEq, and_true] at hends
  obtain ⟨hhanded, hstate, hscale, hqueue, hiss, huna, hnxt, hwnd, hcwnd, htail, hused, hbytes⟩ :=
    hends
  have hreach : ReachedBy endpoints KeepsSending e :=
    .runAllowed (fun _ _ _ => endpoints_next) opening opening_keepsSending
      (.init ⟨0, 0, .inr rfl⟩) hrun
  exact ⟨e, hreach.mono fun _ _ h => h.1, hhanded, hstate, hiss, huna, hnxt, hwnd, hcwnd, htail,
    hscale, hused, List.eq_nil_of_length_eq_zero hqueue, hbytes⟩

theorem filled_run (k : Nat) (hk : 1480 * k ≤ recvBufSize.toNat) : ∃ e, Filled (1480 * k) e := by
  induction k with
  | zero => exact filled_start
  | succ k ih =>
      obtain ⟨e, he⟩ := ih (by omega)
      have hlen : (List.replicate 1480 (0 : U8)).length = 1480 := List.length_replicate
      have hdata : List.replicate 1480 (0 : U8) ≠ [] := List.ne_nil_of_length_pos (by omega)
      obtain ⟨e', he'⟩ := filled_step he hdata (by omega)
      rw [hlen] at he'
      exact ⟨e', he'⟩

/-- With the receive buffer all but full, a segment that widens the window and
brings 1480 bytes leaves a byte behind that may be sent. -/
theorem byte_stranded :
    ∃ e, ReachedBy endpoints Allocates e ∧ e.handed.length = 1 ∧ e.tcb.state = .established ∧
      (utcpOutput (Env.still 0).output e.tcb).log ≠ [] := by
  obtain ⟨e, he⟩ := filled_run 708 (by decide)
  have hlen : (List.replicate 1480 (0 : U8)).length = 1480 := List.length_replicate
  have hdata : List.replicate 1480 (0 : U8) ≠ [] := List.ne_nil_of_length_pos (by omega)
  have hrun := @run_arrives e 1 _ he.state he.sndUna hdata he.scaleEnabled
  have hwiden : widened e.tcb 1 = { e.tcb with sndWnd := 1 } := by
    rw [widened, he.sndWnd]
    rfl
  have hroom : ¬ (List.replicate 1480 (0 : U8)).length ≤
      (recvBufSize - bufUsed { e.tcb with sndWnd := 1 } - e.tcb.oooBytes).toNat := by
    have hfree := filled_room he (by decide)
    have hsize : recvBufSize.toNat = 1048576 := rfl
    have hsame : bufUsed { e.tcb with sndWnd := 1 } = bufUsed e.tcb := rfl
    rw [hsame]
    omega
  have hfull := @placeData_full (.still 0) { e.tcb with sndWnd := 1 } _ hroom
  have hsame : ({ e.tcb with sndWnd := 1 } : Tcb).rcvNxt = e.tcb.rcvNxt := rfl
  rw [hsame] at hfull
  rw [hwiden, hfull] at hrun
  have hpositive : 0 < (outputLength { e.tcb with sndWnd := 1 }).toNat := by
    apply Nat.pos_of_ne_zero
    intro hzero
    have hflight : (e.tcb.sndNxt - e.tcb.sndUna).toNat = 0 := by
      rw [he.sndNxt, he.sndUna]
      rfl
    rcases (@outputLength_zero_iff { e.tcb with sndWnd := 1 } he.state).mp
      (BitVec.eq_of_toNat_eq hzero) with hshut | hempty | ⟨hsome, -⟩
    · have hopen : (sendWindow { e.tcb with sndWnd := 1 }).toNat = 1 := by
        rw [sendWindow_toNat]
        have hcwnd : ({ e.tcb with sndWnd := 1 } : Tcb).cwnd = mss * iw := he.cwnd
        rw [hcwnd]
        rfl
      rw [WindowFull, hopen, hflight] at hshut
      exact absurd hshut (by decide)
    · have hone : outputBuffered e.tcb = 1 := by
        rw [outputBuffered, he.iss, he.sndNxt, he.sendBufTail]
        decide
      have hsame : outputBuffered { e.tcb with sndWnd := 1 } = outputBuffered e.tcb := rfl
      rw [hsame, hone] at hempty
      exact absurd hempty (by decide)
    · rw [hflight] at hsome
      exact absurd hsome (by decide)
  have hsends := (@firstSegment_iff { e.tcb with sndWnd := 1 } (Env.still 0).output he.state
    (reachable_tfAcknow he.reached.reachable)).mpr ⟨rfl, hpositive⟩
  refine ⟨_, .step he.reached (allocates_arrives e _) ⟨_, hrun⟩, he.handed, he.state, ?_⟩
  obtain ⟨seg, hseg, -⟩ := hsends
  intro hnothing
  have hnothing' : (utcpOutput (Env.still 0).output { e.tcb with sndWnd := 1 }).log = [] := hnothing
  rw [hnothing'] at hseg
  cases hseg

end Utcp.Stalls
