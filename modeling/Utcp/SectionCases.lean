import Utcp.Sections

/-!
What each critical section does, by cases: one case for each way the code takes,
with the functions it calls left as they are.
-/

namespace Utcp.SectionCases

open Traces
open Utcp.Tcp
open Utcp.Utils
open Utcp.Output
open Utcp.CongestionControl
open Utcp.Timers
open Utcp.Input
open Utcp.Api
open Utcp.Steps
open Utcp.Sections

variable {env : Env} {tcb : Tcb} {seg : TcpSegment} {peer : Peer} {out : Out}

theorem outputTrace_eq {tcb' : Tcb} {log : List Event} (h : Trace OutputStep tcb log tcb') :
    ∃ sndNxt sndMax tTimer tRtt tRtseq tfAcknow tfDelack,
      tcb' = { tcb with sndNxt, sndMax, tTimer, tRtt, tRtseq, tfAcknow, tfDelack } := by
  induction h with
  | nil tcb => exact ⟨_, _, _, _, _, _, _, rfl⟩
  | cons hstep _ ih =>
      obtain ⟨_, _, _, _, _, _, _, rfl⟩ := ih
      cases hstep with
      | flags => exact ⟨_, _, _, _, _, _, _, rfl⟩
      | delack => exact ⟨_, _, _, _, _, _, _, rfl⟩
      | bare => exact ⟨_, _, _, _, _, _, _, rfl⟩
      | advance timeUs newSynFin hsyn hadvance =>
          obtain ⟨_, _, _, heq⟩ := advanceSndNxt_eq _ (outputLength _) newSynFin
          rw [heq]
          exact ⟨_, _, _, _, _, _, _, rfl⟩

theorem utcpOutput_eq (readings : Nat → Reading) (tcb : Tcb) :
    ∃ sndNxt sndMax tTimer tRtt tRtseq tfAcknow tfDelack,
      (utcpOutput readings tcb).tcb =
        { tcb with sndNxt, sndMax, tTimer, tRtt, tRtseq, tfAcknow, tfDelack } :=
  outputTrace_eq (utcpOutput_trace readings tcb)

theorem receiveTrace_eq {tcb' : Tcb} {log : List Event} {In : TcpSegment → Prop}
    (h : Trace (ReceiveStep In) tcb log tcb') :
    ∃ recvBuf recvBufTail rcvNxt oooHead oooBytes,
      tcb' = { tcb with recvBuf, recvBufTail, rcvNxt, oooHead, oooBytes } := by
  induction h with
  | nil tcb => exact ⟨_, _, _, _, _, rfl⟩
  | cons hstep _ ih =>
      obtain ⟨_, _, _, _, _, rfl⟩ := ih
      cases hstep <;> exact ⟨_, _, _, _, _, rfl⟩

theorem dataTrace_eq {tcb' : Tcb} {log : List Event} {In : TcpSegment → Prop}
    (h : Trace (DataStep In) tcb log tcb') :
    ∃ sndNxt sndMax tTimer tRtt tRtseq tfAcknow tfDelack recvBuf recvBufTail rcvNxt oooHead oooBytes,
      tcb' =
        { tcb with
          sndNxt, sndMax, tTimer, tRtt, tRtseq, tfAcknow, tfDelack
          recvBuf, recvBufTail, rcvNxt, oooHead, oooBytes } := by
  induction h with
  | nil tcb => exact ⟨_, _, _, _, _, _, _, _, _, _, _, _, rfl⟩
  | cons hstep _ ih =>
      obtain ⟨_, _, _, _, _, _, _, _, _, _, _, _, rfl⟩ := ih
      cases hstep with
      | output h =>
          obtain ⟨_, _, _, _, _, _, _, rfl⟩ := outputTrace_eq (.single h)
          exact ⟨_, _, _, _, _, _, _, _, _, _, _, _, rfl⟩
      | receive h =>
          obtain ⟨_, _, _, _, _, rfl⟩ := receiveTrace_eq (.single h)
          exact ⟨_, _, _, _, _, _, _, _, _, _, _, _, rfl⟩

theorem handleData_eq (env : Env) (tcb : Tcb) (seg : TcpSegment) :
    ∃ sndNxt sndMax tTimer tRtt tRtseq tfAcknow tfDelack recvBuf recvBufTail rcvNxt oooHead oooBytes,
      (handleData env tcb seg).tcb =
        { tcb with
          sndNxt, sndMax, tTimer, tRtt, tRtseq, tfAcknow, tfDelack
          recvBuf, recvBufTail, rcvNxt, oooHead, oooBytes } := by
  have htrace : Trace (DataStep fun _ => True) tcb (handleData env tcb seg).log
      (handleData env tcb seg).tcb := handleData_trace env trivial
  exact dataTrace_eq htrace

theorem measureRtt_eq (env : Env) (seg : TcpSegment) (tcb : Tcb) :
    ∃ tRtt tSrtt tRttvar tRxtcur minRttSeenUs,
      (measureRtt env seg tcb).1 = { tcb with tRtt, tSrtt, tRttvar, tRxtcur, minRttSeenUs } := by
  have hsample : ∀ rttUs, ∃ tRtt tSrtt tRttvar tRxtcur minRttSeenUs,
      { utcpXmitTimer tcb rttUs with tRtt := 0 } =
        { tcb with tRtt, tSrtt, tRttvar, tRxtcur, minRttSeenUs } := by
    intro rttUs
    obtain ⟨tSrtt, tRttvar, minRttSeenUs, heq⟩ := utcpXmitTimer_eq tcb rttUs
    rw [heq]
    exact ⟨_, _, _, _, _, rfl⟩
  unfold measureRtt
  split
  · split
    · split
      · exact ⟨_, _, _, _, _, rfl⟩
      · exact hsample _
    · exact ⟨_, _, _, _, _, rfl⟩
  · split
    · exact hsample _
    · exact ⟨_, _, _, _, _, rfl⟩

theorem rearmRexmt_eq (env : Env) (tcb : Tcb) :
    ∃ ticks tRxtshift,
      (rearmRexmt env tcb).tcb = { setTimer tcb .rexmt ticks with tRxtshift } := by
  unfold rearmRexmt
  split
  · exact ⟨_, _, rfl⟩
  · exact ⟨_, tcb.tRxtshift, rfl⟩

theorem beforeAckEvent_eq (env : Env) (tcb : Tcb) (seg : TcpSegment) :
    ∃ ticks tRtt tSrtt tRttvar tRxtcur tRxtshift minRttSeenUs,
      (beforeAckEvent env tcb seg).tcb =
        { setTimer (acceptAck tcb seg.hdr) .rexmt ticks with
          tRtt, tSrtt, tRttvar, tRxtcur, tRxtshift, minRttSeenUs } := by
  obtain ⟨_, _, _, _, _, hmeasured⟩ := measureRtt_eq env seg (acceptAck tcb seg.hdr)
  obtain ⟨ticks, tRxtshift, hrearmed⟩ :=
    rearmRexmt_eq env (measureRtt env seg (acceptAck tcb seg.hdr)).1
  rw [beforeAckEvent, hrearmed, hmeasured]
  exact ⟨ticks, _, _, _, _, tRxtshift, _, rfl⟩

/-- What is acknowledged already is not acknowledged again. -/
theorem validAck_self {ack : U32} (h : ack = tcb.sndUna) : validAck tcb ack = false := by
  rw [validAck, h, seqGt, BitVec.sub_self]
  rfl

/-- The ways of the acknowledgment half of `handle_received_data`. -/
inductive AckCases (env : Env) (tcb : Tcb) (seg : TcpSegment) : Out → Prop
  | acked (cc : Out) (hack : validAck tcb seg.hdr.thAck)
      (hcc : congControl env (beforeAckEvent env tcb seg).tcb
        (.ack (seg.hdr.thAck - tcb.sndUna) (measureRtt env seg (acceptAck tcb seg.hdr)).2) =
          some cc) :
      AckCases env tcb seg ⟨cc.tcb, (beforeAckEvent env tcb seg).log ++ cc.log⟩
  | window (hack : validAck tcb seg.hdr.thAck = false) (hsame : seg.hdr.thAck = tcb.sndUna)
      (hlarger : getScaledWin tcb seg.hdr > tcb.sndWnd) :
      AckCases env tcb seg ⟨{ tcb with sndWnd := getScaledWin tcb seg.hdr }, []⟩
  | duplicate (cc : Out) (dupacks : U8) (hack : validAck tcb seg.hdr.thAck = false)
      (hsame : seg.hdr.thAck = tcb.sndUna) (hsmaller : ¬ getScaledWin tcb seg.hdr > tcb.sndWnd)
      (hbare : payload seg = []) (hflight : tcb.sndUna ≠ tcb.sndMax)
      (hdupacks : dupacks = if tcb.tDupacks < 255 then tcb.tDupacks + 1 else tcb.tDupacks)
      (hcc : congControl env
        { tcb with sndWnd := getScaledWin tcb seg.hdr, tDupacks := dupacks }
        (.dupAck (dupacks.setWidth 32)) = some cc) : AckCases env tcb seg cc
  | ignored (hack : validAck tcb seg.hdr.thAck = false)
      (hnot : seg.hdr.thAck = tcb.sndUna → ¬ (payload seg = [] ∧ tcb.sndUna ≠ tcb.sndMax)) :
      AckCases env tcb seg ⟨tcb, []⟩

theorem handleAck_cases (h : handleAck env tcb seg = some out) : AckCases env tcb seg out := by
  simp only [handleAck] at h
  split at h
  · rename_i hack
    obtain ⟨cc, hcc, hout⟩ := Option.bind_eq_some_iff.mp h
    cases hout
    exact .acked cc hack hcc
  · rename_i hack
    rw [Bool.not_eq_true] at hack
    split at h
    · rename_i hsame
      simp only [handleSameAck] at h
      split at h
      · rename_i hlarger
        cases h
        exact .window hack hsame hlarger
      · rename_i hsmaller
        split at h
        · rename_i hdup
          exact .duplicate out _ hack hsame hsmaller hdup.1 hdup.2 rfl h
        · rename_i hdup
          cases h
          exact .ignored hack fun _ => hdup
    · rename_i hother
      cases h
      exact .ignored hack fun hsame => absurd hsame hother

/-- The ways of the data half of `handle_received_data`. -/
inductive DataCases (env : Env) (tcb : Tcb) (seg : TcpSegment) : Out → Prop
  | bare (hbare : payload seg = []) : DataCases env tcb seg (utcpOutput env.output tcb)
  | repeated (hdata : payload seg ≠ []) :
      DataCases env tcb seg (utcpOutput env.output (setAcknow tcb))
  | accepted (data : List U8) (hdata : Carries seg tcb.rcvNxt data)
      (hroom : data.length ≤ (recvBufSize - bufUsed tcb - tcb.oooBytes).toNat) :
      DataCases env tcb seg
        ⟨(utcpOutput env.output (acceptInOrder tcb data).tcb).tcb,
          .freeSpace (bufUsed tcb) tcb.oooBytes ::
            ((acceptInOrder tcb data).log ++
              (utcpOutput env.output (acceptInOrder tcb data).tcb).log)⟩
  | full (data : List U8) (hdata : Carries seg tcb.rcvNxt data)
      (hroom : ¬ data.length ≤ (recvBufSize - bufUsed tcb - tcb.oooBytes).toNat) :
      DataCases env tcb seg ⟨tcb, [.freeSpace (bufUsed tcb) tcb.oooBytes]⟩
  | early (seqNum : U32) (data : List U8) (hdata : Carries seg seqNum data)
      (hseq : seqNum ≠ tcb.rcvNxt) :
      DataCases env tcb seg
        ⟨(utcpOutput env.output (setAcknow (insertOooSegment env tcb seqNum data).tcb)).tcb,
          (insertOooSegment env tcb seqNum data).log ++
            (utcpOutput env.output (setAcknow (insertOooSegment env tcb seqNum data).tcb)).log⟩

theorem placeData_cases {seqNum : U32} {data : List U8} (hdata : Carries seg seqNum data) :
    DataCases env tcb seg (placeData env tcb seqNum data) := by
  by_cases hseq : seqNum = tcb.rcvNxt
  · subst hseq
    by_cases hroom : data.length ≤ (recvBufSize - bufUsed tcb - tcb.oooBytes).toNat
    · rw [placeData_fits env hroom]
      exact .accepted data hdata hroom
    · rw [placeData_full env hroom]
      exact .full data hdata hroom
  · rw [placeData_other env data hseq]
    exact .early seqNum data hdata hseq

theorem handleData_cases : DataCases env tcb seg (handleData env tcb seg) := by
  simp only [handleData]
  split
  · rename_i hbare
    exact .bare hbare
  · rename_i hdata
    split
    · split
      · exact .repeated hdata
      · rename_i hpart
        apply placeData_cases
        exact ⟨tcb.rcvNxt - seg.hdr.thSeq, by omega, rfl, rfl⟩
    · apply placeData_cases
      exact ⟨0, List.length_pos_iff.mpr hdata, (BitVec.add_zero _).symm, rfl⟩

/-- The ways of `utcp_input`. -/
inductive InputCases (env : Env) (tcb : Tcb) (seg : TcpSegment) (peer : Peer) : Out → Prop
  | syn (hstate : tcb.state = .listen) (hflag : hasFlag seg.hdr.thFlags thSyn) :
      InputCases env tcb seg peer (utcpOutput env.output (acceptSyn env tcb seg peer))
  | synAck (cc : Out) (hstate : tcb.state = .synSent) (hawaited : isAwaitedSynAck tcb seg.hdr)
      (hcc : congControl env (acceptSynAck env tcb seg) .init = some cc) :
      InputCases env tcb seg peer
        ⟨(utcpOutput env.output (setAcknow cc.tcb)).tcb,
          cc.log ++ (utcpOutput env.output (setAcknow cc.tcb)).log⟩
  | finalAck (cc rest : Out) (hstate : tcb.state = .synRecv)
      (hcompletes : completesHandshake tcb seg.hdr)
      (hcc : congControl env (acceptFinalAck tcb seg) .init = some cc)
      (hrest : handleReceivedData env cc.tcb seg = some rest) :
      InputCases env tcb seg peer ⟨rest.tcb, cc.log ++ rest.log⟩
  | received (rest : Out) (hstate : Receiving tcb)
      (hnot : tcb.state = .synRecv → completesHandshake tcb seg.hdr = false)
      (hrest : handleReceivedData env tcb seg = some rest) : InputCases env tcb seg peer rest
  | ignored (hstate : ¬ Receiving tcb)
      (hlisten : tcb.state = .listen → hasFlag seg.hdr.thFlags thSyn = false)
      (hsent : tcb.state = .synSent → isAwaitedSynAck tcb seg.hdr = false) :
      InputCases env tcb seg peer ⟨tcb, []⟩

theorem utcpInput_cases (h : utcpInput env tcb seg peer = some out) :
    InputCases env tcb seg peer out := by
  have hnot : ∀ {state : TcpState}, tcb.state = state → state ≠ .synRecv → state ≠ .established →
      ¬ Receiving tcb := by
    rintro state rfl hrecv hest (hstate | hstate)
    · exact hrecv hstate
    · exact hest hstate
  unfold utcpInput at h
  split at h
  · rename_i hstate
    split at h
    · rename_i hflag
      cases h
      exact .syn hstate hflag
    · rename_i hflag
      cases h
      refine .ignored (hnot hstate (by decide) (by decide)) ?_ ?_
      · exact fun _ => Bool.not_eq_true _ ▸ hflag
      · rw [hstate]
        rintro ⟨⟩
  · rename_i hstate
    split at h
    · rename_i hawaited
      obtain ⟨cc, hcc, h⟩ := Option.bind_eq_some_iff.mp h
      cases h
      exact .synAck cc hstate hawaited hcc
    · rename_i hawaited
      cases h
      refine .ignored (hnot hstate (by decide) (by decide)) ?_ ?_
      · rw [hstate]
        rintro ⟨⟩
      · exact fun _ => Bool.not_eq_true _ ▸ hawaited
  · rename_i hstate
    obtain ⟨cc, hcc, h⟩ := Option.bind_eq_some_iff.mp h
    obtain ⟨rest, hrest, h⟩ := Option.bind_eq_some_iff.mp h
    cases h
    unfold synRecvInput at hcc
    split at hcc
    · rename_i hcompletes
      exact .finalAck cc rest hstate hcompletes hcc hrest
    · rename_i hcompletes
      cases hcc
      exact .received rest (.inl hstate) (fun _ => Bool.not_eq_true _ ▸ hcompletes) hrest
  · rename_i hstate
    refine .received out (.inr hstate) ?_ h
    rw [hstate]
    rintro ⟨⟩
  · rename_i hlisten hsent hrecv hest
    cases h
    refine .ignored ?_ (fun hstate => absurd hstate hlisten) (fun hstate => absurd hstate hsent)
    rintro (hstate | hstate)
    · exact hrecv hstate
    · exact hest hstate

/-- A relation between a block, the events on the way and the block behind them
that holds of a stretch of code when it holds of its pieces. -/
structure Composes (R : Tcb → List Event → Tcb → Prop) : Prop where
  nil : ∀ tcb, R tcb [] tcb
  append : ∀ {a b c log log'}, R a log b → R b log' c → R a (log ++ log') c

variable {R : Tcb → List Event → Tcb → Prop}

theorem Composes.trace {S : Tcb → List Event → Tcb → Prop} (hR : Composes R)
    (hstep : ∀ a log b, S a log b → R a log b) {a b : Tcb} {log : List Event}
    (h : Trace S a log b) : R a log b := by
  induction h with
  | nil tcb => exact hR.nil tcb
  | cons hfirst _ ih => exact hR.append (hstep _ _ _ hfirst) ih

theorem composes_eq {α : Type*} (f : Tcb → α) : Composes fun tcb _ tcb' => f tcb' = f tcb :=
  ⟨fun _ => rfl, fun hab hbc => hbc.trans hab⟩

/-- What a tick does for one timer. -/
inductive TickCases (env : Env) (tcb : Tcb) : Timer → Out → Prop
  | idle (timer : Timer) (hticks : ¬ 0 < (tcb.tTimer timer).toInt) :
      TickCases env tcb timer ⟨tcb, []⟩
  | countDown (timer : Timer) (hticks : 1 < (tcb.tTimer timer).toInt) :
      TickCases env tcb timer ⟨setTimer tcb timer (tcb.tTimer timer - 1), []⟩
  | rexmt (recover : U32) (hticks : tcb.tTimer .rexmt = 1)
      (hcc : congControl env (goBack env (setTimer tcb .rexmt (tcb.tTimer .rexmt - 1)))
        (.timeout (flightSize tcb)) = some ⟨expireRexmt env tcb recover, []⟩) :
      TickCases env tcb .rexmt
        ⟨(utcpOutput env.output (expireRexmt env tcb recover)).tcb,
          [.expired .rexmt, .backoff (tcb.tRxtshift + 1).toNat] ++
            (utcpOutput env.output (expireRexmt env tcb recover)).log⟩
  | delack (hticks : tcb.tTimer .delack = 1) :
      TickCases env tcb .delack
        ⟨(utcpOutput env.output
            { setTimer tcb .delack 0 with tfDelack := false, tfAcknow := true }).tcb,
          .expired .delack :: (utcpOutput env.output
            { setTimer tcb .delack 0 with tfDelack := false, tfAcknow := true }).log⟩
  | other (timer : Timer) (hticks : tcb.tTimer timer = 1) (hrexmt : timer ≠ .rexmt)
      (hdelack : timer ≠ .delack) : TickCases env tcb timer ⟨setTimer tcb timer 0, [.expired timer]⟩

theorem tickTimer_cases {timer : Timer} (h : tickTimer env tcb timer = some out) :
    TickCases env tcb timer out := by
  have hone : tcb.tTimer timer - 1 = 0 ↔ tcb.tTimer timer = 1 := by
    rw [BitVec.sub_eq_iff_eq_add]
    exact Iff.rfl
  simp only [tickTimer] at h
  split at h
  · rename_i hpos
    split at h
    · rename_i hzero
      have hticks : tcb.tTimer timer = 1 := by
        simp only [setTimer, if_true] at hzero
        exact hone.mp hzero
      have hexpired : setTimer tcb timer (tcb.tTimer timer - 1) = setTimer tcb timer 0 := by
        rw [hone.mpr hticks]
      cases timer with
      | rexmt =>
          obtain ⟨recover, htimeout⟩ := congControl_timeout env
            (goBack env (setTimer tcb .rexmt (tcb.tTimer .rexmt - 1))) (flightSize tcb)
          have hcc : congControl env (goBack env (setTimer tcb .rexmt (tcb.tTimer .rexmt - 1)))
              (.timeout (flightSize tcb)) = some ⟨expireRexmt env tcb recover, []⟩ := htimeout
          have hflight : flightSize (setTimer tcb .rexmt (tcb.tTimer .rexmt - 1)) =
              flightSize tcb := rfl
          simp only [utcpTimers] at h
          rw [hflight, hcc] at h
          cases h
          exact .rexmt recover hticks hcc
      | delack =>
          rw [hexpired] at h
          cases h
          exact .delack hticks
      | persist =>
          rw [hexpired] at h
          cases h
          exact .other .persist hticks (by decide) (by decide)
      | keep =>
          rw [hexpired] at h
          cases h
          exact .other .keep hticks (by decide) (by decide)
      | twoMsl =>
          rw [hexpired] at h
          cases h
          exact .other .twoMsl hticks (by decide) (by decide)
    · rename_i hzero
      cases h
      refine .countDown timer ?_
      have hne : (tcb.tTimer timer).toInt ≠ 1 := by
        rintro heq
        apply hzero
        simp only [setTimer, if_true]
        exact hone.mpr (BitVec.eq_of_toInt_eq heq)
      omega
  · rename_i hidle
    cases h
    exact .idle timer hidle

theorem tickTimers_composes {envs : Timer → Env} (hR : Composes R) (timers : List Timer)
    (htick : ∀ timer ∈ timers, ∀ tcb out, TickCases (envs timer) tcb timer out →
      R tcb out.log out.tcb) :
    ∀ {tcb : Tcb} {out : Out}, tickTimers envs timers tcb = some out → R tcb out.log out.tcb := by
  induction timers with
  | nil =>
      intro tcb out h
      cases h
      exact hR.nil tcb
  | cons timer timers ih =>
      intro tcb out h
      obtain ⟨first, hfirst, h⟩ := Option.bind_eq_some_iff.mp h
      obtain ⟨rest, hrest, h⟩ := Option.bind_eq_some_iff.mp h
      cases h
      exact hR.append (htick timer List.mem_cons_self tcb first (tickTimer_cases hfirst))
        (ih (fun t ht => htick t (List.mem_cons_of_mem _ ht)) hrest)

/-- The block as a tick of the clock finds it at its first timer. -/
def ticked (tcb : Tcb) : Tcb :=
  { tcb with
    tIdle := tcb.tIdle + 1
    tRtt := if tcb.tRtt > 0 then tcb.tRtt + 1 else tcb.tRtt }

theorem utcpSlowtimo_composes {envs : Timer → Env} (hR : Composes R)
    (htick : ∀ timer tcb out, TickCases (envs timer) tcb timer out → R tcb out.log out.tcb)
    (hclock : R tcb [] (ticked tcb)) (h : utcpSlowtimo envs tcb = some out) :
    R tcb out.log out.tcb := by
  unfold utcpSlowtimo at h
  split at h
  · cases h
    exact hR.nil tcb
  · exact hR.append hclock (tickTimers_composes hR Timer.all (fun timer _ => htick timer) h)

theorem sendLoop_composes {envs : Nat → Env} (hR : Composes R)
    (hchunk : ∀ turn tcb chunk,
      R tcb (utcpOutput (envs turn).output (writeChunk tcb chunk)).log
        (utcpOutput (envs turn).output (writeChunk tcb chunk)).tcb) (fuel : Nat) :
    ∀ turn tcb remaining,
      R tcb (sendLoop envs fuel turn tcb remaining).1.log
        (sendLoop envs fuel turn tcb remaining).1.tcb := by
  induction fuel with
  | zero => exact fun _ tcb _ => hR.nil tcb
  | succ fuel ih =>
      intro turn tcb remaining
      simp only [sendLoop]
      split
      · exact hR.nil tcb
      · exact hR.append (hchunk _ _ _) (ih _ _ _)

theorem utcpSend_composes {envs : Nat → Env} (hR : Composes R)
    (hchunk : ∀ turn tcb chunk,
      R tcb (utcpOutput (envs turn).output (writeChunk tcb chunk)).log
        (utcpOutput (envs turn).output (writeChunk tcb chunk)).tcb) (tcb : Tcb)
    (bytes : List U8) :
    R tcb (utcpSend envs tcb bytes).1.log (utcpSend envs tcb bytes).1.tcb := by
  rw [utcpSend]
  exact sendLoop_composes hR hchunk _ _ _ _

theorem takeBytes_eq (tcb : Tcb) (n : Nat) :
    ∃ recvBufHead rcvWnd, takeBytes tcb n = { tcb with recvBufHead, rcvWnd } := by
  rw [takeBytes]
  exact ⟨_, _, rfl⟩

/-- The ways of `utcp_read`, with something to read. -/
inductive ReadCases (env : Env) (tcb : Tcb) : Out → Prop
  | update (n : Nat) (hn : n ≤ (bufUsed tcb).toNat) :
      ReadCases env tcb
        ⟨(utcpOutput env.output (setAcknow (takeBytes tcb n))).tcb,
          .freeSpace (bufUsed (takeBytes tcb n)) (takeBytes tcb n).oooBytes ::
            (utcpOutput env.output (setAcknow (takeBytes tcb n))).log⟩
  | quiet (n : Nat) (hn : n ≤ (bufUsed tcb).toNat) :
      ReadCases env tcb
        ⟨takeBytes tcb n, [.freeSpace (bufUsed (takeBytes tcb n)) (takeBytes tcb n).oooBytes]⟩

theorem utcpRead_cases (env : Env) (tcb : Tcb) (len : Nat) :
    ReadCases env tcb (utcpRead env tcb len).1 := by
  simp only [utcpRead]
  split
  · exact .update _ (Nat.min_le_right _ _)
  · exact .quiet _ (Nat.min_le_right _ _)

/-- The ways of a critical section. -/
inductive RunCases (tcb : Tcb) : Section → Out → Prop
  | connect (env : Env) (ip : U32) (port : U16) (hstate : tcb.state = .closed) :
      RunCases tcb (.connect env ip port) (utcpConnect env tcb ip port)
  | input (env : Env) (seg : TcpSegment) (peer : Peer) (out : Out)
      (h : InputCases env tcb seg peer out) : RunCases tcb (.input env seg peer) out
  | slowtimo (envs : Timer → Env) (out : Out) (h : utcpSlowtimo envs tcb = some out) :
      RunCases tcb (.slowtimo envs) out
  | send (envs : Nat → Env) (bytes : List U8) (hstate : tcb.state = .established) :
      RunCases tcb (.send envs bytes) (utcpSend envs tcb bytes).1
  | wake (envs : Nat → Env) (bytes : List U8) (hstate : tcb.state = .established) :
      RunCases tcb (.wake envs) (utcpSend envs tcb bytes).1
  | read (env : Env) (len : Nat) (out : Out) (hstate : tcb.state = .established)
      (h : ReadCases env tcb out) : RunCases tcb (.read env len) out

/-- An endpoint after a critical section that did `out`. -/
structure Ran (e : Endpoint) (e' : Endpoint) (log : List Event) (out : Out) : Prop where
  tcb_eq : e'.tcb = out.tcb
  log_eq : log = out.log
  history_eq : e'.history = e.history ++ log

theorem run_cases {e e' : Endpoint} {s : Section} {log : List Event}
    (h : e.run s = some (e', log)) : ∃ out, RunCases e.tcb s out ∧ Ran e e' log out := by
  have hfinish : ∀ (e : Endpoint) (out : Out) (result : Endpoint × List Event),
      e.finish out = result → Ran e result.1 result.2 out := by
    rintro e out _ rfl
    exact ⟨rfl, rfl, rfl⟩
  cases s with
  | connect env ip port =>
      simp only [Endpoint.run] at h
      split at h
      · rename_i hstate
        exact ⟨_, .connect env ip port hstate, hfinish e _ _ (Option.some.inj h)⟩
      · cases h
  | input env seg peer =>
      obtain ⟨out, hout, h⟩ := Option.map_eq_some_iff.mp h
      exact ⟨out, .input env seg peer out (utcpInput_cases hout), hfinish e _ _ h⟩
  | slowtimo envs =>
      obtain ⟨out, hout, h⟩ := Option.map_eq_some_iff.mp h
      exact ⟨out, .slowtimo envs out hout, hfinish e _ _ h⟩
  | send envs bytes =>
      simp only [Endpoint.run] at h
      split at h
      · rename_i hcall
        obtain ⟨htcb, hlog, hhistory⟩ := hfinish _ _ _ (Option.some.inj h)
        exact ⟨_, .send envs bytes hcall.1, htcb, hlog, hhistory⟩
      · cases h
  | wake envs =>
      simp only [Endpoint.run] at h
      split at h
      · rename_i hwake
        obtain ⟨htcb, hlog, hhistory⟩ := hfinish _ _ _ (Option.some.inj h)
        exact ⟨_, .wake envs e.pending hwake.1, htcb, hlog, hhistory⟩
      · cases h
  | read env len =>
      simp only [Endpoint.run] at h
      split at h
      · rename_i hread
        obtain ⟨htcb, hlog, hhistory⟩ := hfinish _ _ _ (Option.some.inj h)
        exact ⟨_, .read env len _ hread.1 (utcpRead_cases env e.tcb len), htcb, hlog, hhistory⟩
      · cases h

/-- Every segment gets its memory. -/
structure EnvAllocates (env : Env) : Prop where
  retransmit : env.retransmit.alloc = true
  burst : ∀ i, (env.burst i).alloc = true
  output : ∀ i, (env.output i).alloc = true

def Allocates (_ : Endpoint) : Section → Prop
  | .connect env _ _ => EnvAllocates env
  | .input env _ _ => EnvAllocates env
  | .slowtimo envs => ∀ timer, EnvAllocates (envs timer)
  | .send envs _ => ∀ turn, EnvAllocates (envs turn)
  | .wake envs => ∀ turn, EnvAllocates (envs turn)
  | .read env _ => EnvAllocates env

theorem envAllocates_still (timeUs : U64) : EnvAllocates (.still timeUs) :=
  ⟨rfl, fun _ => rfl, fun _ => rfl⟩

end Utcp.SectionCases
