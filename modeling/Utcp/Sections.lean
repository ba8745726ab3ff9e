import Mathlib.Data.List.TakeDrop
import Mathlib.Data.List.TakeWhile
import Utcp.Steps

/-!
Every critical section is a trace of small steps.
-/

namespace Utcp.Sections

open Traces
open Utcp.Tcp
open Utcp.Utils
open Utcp.Output
open Utcp.CongestionControl
open Utcp.Timers
open Utcp.Input
open Utcp.Api
open Utcp.Steps

variable {In : TcpSegment → Prop} {Ex : U8 → Prop}

theorem leaves {R : Tcb → List Event → Tcb → Prop} {tcb tcb' : Tcb} {log : List Event}
    (h : Trace R tcb log tcb') : Trace R tcb (Out.mk tcb' log).log (Out.mk tcb' log).tcb := h

@[simp] theorem setTimer_state (tcb : Tcb) (timer : Timer) (ticks : U16) :
    (setTimer tcb timer ticks).state = tcb.state := rfl

@[simp] theorem advanceSndNxt_state (tcb : Tcb) (dataLength : U32) (newSynFin : Bool) :
    (advanceSndNxt tcb dataLength newSynFin).state = tcb.state := by
  obtain ⟨_, _, _, heq⟩ := advanceSndNxt_eq tcb dataLength newSynFin
  rw [heq]

theorem outputStep_state {tcb tcb' : Tcb} {log : List Event} (h : OutputStep tcb log tcb') :
    tcb'.state = tcb.state := by
  cases h with
  | advance timeUs newSynFin hsyn hadvance => exact advanceSndNxt_state ..
  | _ => rfl

theorem outputTrace_state {tcb tcb' : Tcb} {log : List Event}
    (h : Trace OutputStep tcb log tcb') : tcb'.state = tcb.state :=
  h.invariant (I := fun t => t.state = tcb.state)
    (fun _ _ _ hstep hs => (outputStep_state hstep).trans hs) rfl

theorem cancelDelack_trace (tcb : Tcb) : Trace OutputStep tcb [] (cancelDelack tcb) := by
  unfold cancelDelack
  split
  · exact .silent (.flags tcb tcb.tfAcknow false) (.single (.delack _ 0))
  · exact .nil tcb

theorem outputLength_cancelDelack (tcb : Tcb) :
    outputLength (cancelDelack tcb) = outputLength tcb := by
  unfold cancelDelack
  split <;> rfl

theorem sendingNewSynFin_cancelDelack (flags : U8) (tcb : Tcb) :
    sendingNewSynFin flags (cancelDelack tcb) = sendingNewSynFin flags tcb := by
  unfold cancelDelack
  split <;> rfl

theorem outputTurn_trace (reading : Reading) (forceSend : Bool) (tcb : Tcb) :
    Trace OutputStep tcb (outputTurn reading (tcpOutflags tcb.state) forceSend tcb).1.log
      (outputTurn reading (tcpOutflags tcb.state) forceSend tcb).1.tcb := by
  have hcancel := cancelDelack_trace tcb
  have hstate := outputTrace_state hcancel
  have hlen := outputLength_cancelDelack tcb
  have hsyn := sendingNewSynFin_cancelDelack (tcpOutflags tcb.state) tcb
  simp only [outputTurn]
  split
  · exact .nil tcb
  · split
    · exact hcancel
    · rename_i log hlog
      obtain rfl : _ = log := by
        unfold utcpSendSegment at hlog
        split at hlog
        · exact Option.some.inj hlog
        · cases hlog
      refine hcancel.append (.single ?_)
      split
      · rename_i hadvance
        have hstep := OutputStep.advance (cancelDelack tcb) reading.timeUs _ rfl
          (by rwa [hlen, hstate, hsyn])
        rw [hlen, hstate, hsyn] at hstep
        exact hstep
      · rename_i hbare
        rw [not_or, Bool.not_eq_true] at hbare
        have hzero : outputLength tcb = 0 := by
          have hle : ¬ (0 : U32) < outputLength tcb := hbare.1
          rw [BitVec.not_lt] at hle
          exact BitVec.le_zero_iff.mp hle
        have hstep := OutputStep.bare (cancelDelack tcb) reading.timeUs (hlen.trans hzero)
          (by rw [hstate, hsyn]; exact hbare.2)
        rw [hstate] at hstep
        rw [hzero]
        exact hstep

theorem outputLoop_trace (readings : Nat → Reading) (fuel : Nat) :
    ∀ (turn : Nat) (forceSend : Bool) (tcb : Tcb),
      Trace OutputStep tcb (outputLoop readings (tcpOutflags tcb.state) fuel turn forceSend tcb).log
        (outputLoop readings (tcpOutflags tcb.state) fuel turn forceSend tcb).tcb := by
  induction fuel with
  | zero =>
      intro turn forceSend tcb
      exact .nil tcb
  | succ fuel ih =>
      intro turn forceSend tcb
      have hturn := outputTurn_trace (readings turn) forceSend tcb
      simp only [outputLoop]
      split
      · have hrest := ih (turn + 1) false
          (outputTurn (readings turn) (tcpOutflags tcb.state) forceSend tcb).1.tcb
        rw [outputTrace_state hturn] at hrest
        exact hturn.append hrest
      · exact hturn

theorem utcpOutput_trace (readings : Nat → Reading) (tcb : Tcb) :
    Trace OutputStep tcb (utcpOutput readings tcb).log (utcpOutput readings tcb).tcb :=
  .silent (.flags tcb false tcb.tfDelack) (outputLoop_trace readings _ 0 tcb.tfAcknow _)

@[simp] theorem utcpOutput_state (readings : Nat → Reading) (tcb : Tcb) :
    (utcpOutput readings tcb).tcb.state = tcb.state :=
  outputTrace_state (utcpOutput_trace readings tcb)

theorem ccAimd_some {tcb tcb' : Tcb} {acked : U32} (h : ccAimd tcb acked = some tcb') :
    ∃ cwnd caState, tcb' = { tcb with cwnd, caState } := by
  simp only [ccAimd] at h
  split at h
  · cases h
    exact ⟨_, _, rfl⟩
  · split at h
    · cases h
    · cases h
      exact ⟨_, _, rfl⟩

theorem outputControl {tcb tcb' : Tcb} {log : List Event} (h : Trace OutputStep tcb log tcb') :
    Trace (ControlStep In) tcb log tcb' :=
  h.mono fun _ _ _ hstep => .output hstep

theorem ackControl {tcb tcb' : Tcb} {log : List Event}
    (h : AckStep In tcb log tcb') : Trace (ControlStep In) tcb log tcb' :=
  .single (.ack h)

theorem congestion_trace (tcb : Tcb)
    (cwnd ssthresh recover tRtt : U32) (caState : TcpCaState) (tDupacks : U8) :
    Trace (ControlStep In) tcb []
      { tcb with cwnd, ssthresh, recover, tRtt, caState, tDupacks } :=
  ackControl (.congestion ..)

/-- What congestion control does with an event that is not a timeout: change its
own variables, and perhaps retransmit before, or send what a larger window allows. -/
inductive Reaction (env : Env) (tcb : Tcb) : Out → Prop
  | change (cwnd ssthresh recover tRtt : U32) (caState : TcpCaState) (tDupacks : U8) :
      Reaction env tcb ⟨{ tcb with cwnd, ssthresh, recover, tRtt, caState, tDupacks }, []⟩
  | retransmit (cwnd ssthresh recover tRtt : U32) (caState : TcpCaState) (tDupacks : U8) :
      Reaction env tcb
        ⟨{ tcb with cwnd, ssthresh, recover, tRtt, caState, tDupacks },
          utcpRetransmitSegment env.retransmit tcb tcb.sndUna⟩
  | burst (cwnd : U32) : Reaction env tcb (utcpOutput env.burst { tcb with cwnd })

theorem Reaction.nothing (env : Env) (tcb : Tcb) : Reaction env tcb ⟨tcb, []⟩ :=
  .change tcb.cwnd tcb.ssthresh tcb.recover tcb.tRtt tcb.caState tcb.tDupacks

theorem Reaction.trace {env : Env} {tcb : Tcb} {out : Out} (h : Reaction env tcb out) :
    Trace (ControlStep In) tcb out.log out.tcb := by
  cases h with
  | change => exact congestion_trace ..
  | retransmit =>
      have hsend : Trace (ControlStep In) tcb _ tcb := ackControl (.retransmit tcb env.retransmit)
      exact hsend.hush (congestion_trace ..)
  | burst cwnd =>
      exact (congestion_trace _ cwnd _ _ _ _ _).append (outputControl (utcpOutput_trace ..))

theorem tahoe_reaction {env : Env} {tcb : Tcb} {args : CcEventArgs} {out : Out}
    (hargs : ∀ flight, args ≠ .timeout flight)
    (h : tahoeCongControl env tcb args = some out) : Reaction env tcb out := by
  cases args with
  | init =>
      cases h
      exact .change ..
  | ack acked rttUs =>
      obtain ⟨tcb', haimd, hout⟩ := Option.bind_eq_some_iff.mp h
      obtain ⟨cwnd, caState, rfl⟩ := ccAimd_some haimd
      cases hout
      exact .change ..
  | dupAck totalDups =>
      simp only [tahoeCongControl] at h
      split at h
      · cases h
        exact .retransmit ..
      · cases h
        exact .nothing env tcb
  | timeout flight => exact absurd rfl (hargs flight)

theorem reno_reaction {env : Env} {tcb : Tcb} {args : CcEventArgs} {out : Out}
    (hargs : ∀ flight, args ≠ .timeout flight)
    (h : renoCongControl env tcb args = some out) : Reaction env tcb out := by
  cases args with
  | init =>
      cases h
      exact .change ..
  | ack acked rttUs =>
      simp only [renoCongControl] at h
      split at h
      · cases h
        exact .change ..
      · obtain ⟨tcb', haimd, hout⟩ := Option.bind_eq_some_iff.mp h
        obtain ⟨cwnd, caState, rfl⟩ := ccAimd_some haimd
        cases hout
        exact .change ..
  | dupAck totalDups =>
      simp only [renoCongControl] at h
      split at h
      · cases h
        exact .retransmit ..
      · split at h
        · cases h
          exact .burst _
        · cases h
          exact .nothing env tcb
  | timeout flight => exact absurd rfl (hargs flight)

theorem recoveryAck_reaction (env : Env) (tcb : Tcb) (acked : U32) :
    Reaction env tcb (recoveryAck env tcb acked) := by
  simp only [recoveryAck]
  split
  · exact .change ..
  · exact .retransmit ..

theorem recoveryDupAck_reaction (env : Env) (tcb : Tcb) (totalDups : U32) :
    Reaction env tcb (recoveryDupAck env tcb totalDups) := by
  simp only [recoveryDupAck]
  split
  · split
    · exact .retransmit ..
    · exact .nothing env tcb
  · split
    · exact .burst _
    · exact .nothing env tcb

theorem newReno_reaction {env : Env} {tcb : Tcb} {args : CcEventArgs} {out : Out}
    (hargs : ∀ flight, args ≠ .timeout flight)
    (h : newRenoCongControl env tcb args = some out) : Reaction env tcb out := by
  cases args with
  | init =>
      cases h
      exact .change ..
  | ack acked rttUs =>
      simp only [newRenoCongControl] at h
      split at h
      · cases h
        exact recoveryAck_reaction env tcb acked
      · obtain ⟨tcb', haimd, hout⟩ := Option.bind_eq_some_iff.mp h
        obtain ⟨cwnd, caState, rfl⟩ := ccAimd_some haimd
        cases hout
        exact .change ..
  | dupAck totalDups =>
      cases h
      exact recoveryDupAck_reaction env tcb totalDups
  | timeout flight => exact absurd rfl (hargs flight)

theorem lstmReno_reaction {env : Env} {tcb : Tcb} {args : CcEventArgs} {out : Out}
    (hargs : ∀ flight, args ≠ .timeout flight)
    (h : lstmRenoCongControl env tcb args = some out) : Reaction env tcb out := by
  cases args with
  | init =>
      cases h
      exact .change ..
  | ack acked rttUs =>
      simp only [lstmRenoCongControl] at h
      split at h
      · cases h
        rw [lstmRecoveryAck_eq]
        exact recoveryAck_reaction env tcb acked
      · obtain ⟨tcb', haimd, hout⟩ := Option.bind_eq_some_iff.mp h
        obtain ⟨cwnd, caState, rfl⟩ := ccAimd_some haimd
        cases hout
        exact .change ..
  | dupAck totalDups =>
      cases h
      rw [lstmRecoveryDupAck_eq]
      exact recoveryDupAck_reaction env tcb totalDups
  | timeout flight => exact absurd rfl (hargs flight)

theorem congControl_reaction {env : Env} {tcb : Tcb} {args : CcEventArgs} {out : Out}
    (hargs : ∀ flight, args ≠ .timeout flight)
    (h : congControl env tcb args = some out) : Reaction env tcb out := by
  unfold congControl at h
  split at h
  · exact tahoe_reaction hargs h
  · exact reno_reaction hargs h
  · exact newReno_reaction hargs h
  · exact lstmReno_reaction hargs h

theorem congControl_trace {env : Env} {tcb : Tcb} {args : CcEventArgs} {out : Out}
    (hargs : ∀ flight, args ≠ .timeout flight)
    (h : congControl env tcb args = some out) :
    Trace (ControlStep In) tcb out.log out.tcb :=
  (congControl_reaction hargs h).trace

theorem congControl_init (env : Env) (tcb : Tcb) :
    ∃ recover, congControl env tcb .init = some ⟨{ ccInit tcb with recover }, []⟩ := by
  unfold congControl
  split
  · exact ⟨tcb.recover, rfl⟩
  · exact ⟨tcb.recover, rfl⟩
  · exact ⟨tcb.iss, rfl⟩
  · exact ⟨tcb.iss, rfl⟩

/-- An expiry of the retransmission timer is the same in all four modules. -/
theorem congControl_timeout (env : Env) (tcb : Tcb) (flight : U32) :
    ∃ recover,
      congControl env tcb (.timeout flight) = some ⟨ccTimeout { tcb with recover } flight, []⟩ := by
  unfold congControl
  split
  · exact ⟨tcb.recover, rfl⟩
  · exact ⟨tcb.recover, rfl⟩
  · exact ⟨tcb.sndMax, rfl⟩
  · exact ⟨tcb.sndMax, rfl⟩

theorem absorbEntries_trace (tcb : Tcb) (before : List TcpqEntry) (endSeq len : U32)
    (cur : List TcpqEntry) :
    ∀ oooBytes : U32,
      Trace (ReceiveStep In)
        { tcb with oooHead := before ++ cur, oooBytes := oooBytes + len }
        (absorbEntries endSeq cur oooBytes).2.2
        { tcb with
          oooHead := before ++ (absorbEntries endSeq cur oooBytes).1
          oooBytes := (absorbEntries endSeq cur oooBytes).2.1 + len } := by
  induction cur with
  | nil =>
      intro oooBytes
      exact .nil _
  | cons cur rest ih =>
      intro oooBytes
      have hcomm : ∀ x : U32, oooBytes + len - x = oooBytes - x + len := by
        intro x
        rw [BitVec.sub_eq_add_neg, BitVec.sub_eq_add_neg, BitVec.add_assoc, BitVec.add_assoc,
          BitVec.add_comm len]
      simp only [absorbEntries]
      split
      · rename_i hstart
        split
        · have hstep : ReceiveStep In _ _ _ := ReceiveStep.absorb
            { tcb with oooHead := before ++ cur :: rest, oooBytes := oooBytes + len }
            cur before rest rfl
          simp only [hcomm] at hstep
          exact .silent hstep (ih _)
        · rename_i hend
          have hstep : ReceiveStep In _ _ _ := ReceiveStep.trim
            { tcb with oooHead := before ++ cur :: rest, oooBytes := oooBytes + len }
            cur before rest endSeq rfl hstart (by simpa using hend)
          simp only [hcomm] at hstep
          exact .single hstep
      · exact .nil _

theorem seqGt_eq_not (a b : U32) : seqGt a b = !seqLeq a b := by
  simp only [seqGt, seqLeq, ← decide_not, Int.not_le]

/-- The entry before the insertion point ends at or before the new segment, so
nothing is cut off its start. -/
theorem trimStart_takeWhile (queue : List TcpqEntry) (new : TcpqEntry) :
    trimStart (queue.takeWhile fun entry => seqLeq (entryEnd entry) new.seq).getLast? new =
      some new := by
  unfold trimStart
  split
  · rfl
  · rename_i prev hprev
    have hmem := List.mem_of_getLast? hprev
    have hend := List.mem_takeWhile_imp hmem
    rw [seqGt_eq_not, if_neg (by simpa using hend)]

theorem insertOooSegment_trace (env : Env) {tcb : Tcb} {seg : TcpSegment} {seq : U32}
    {data : List U8} (hseg : In seg) (hdata : Carries seg seq data) :
    Trace (ReceiveStep In) tcb (insertOooSegment env tcb seq data).log
      (insertOooSegment env tcb seq data).tcb := by
  have hspace : Trace (ReceiveStep In) tcb [.freeSpace (bufUsed tcb) tcb.oooBytes] tcb :=
    .single (.space tcb)
  have htrim := trimStart_takeWhile tcb.oooHead ⟨seq, BitVec.ofNat 32 data.length, data⟩
  simp only [insertOooSegment, List.span_eq_takeWhile_dropWhile]
  rw [htrim]
  split
  · exact hspace
  · rename_i hroom
    dsimp only
    split
    · exact hspace
    · have hqueue := (List.takeWhile_append_dropWhile
        (p := fun entry => seqLeq (entryEnd entry) seq) (l := tcb.oooHead)).symm
      have hinsert : ReceiveStep In tcb [] _ :=
        .insert tcb seg ⟨seq, BitVec.ofNat 32 data.length, data⟩ _ _ hseg hdata rfl hqueue hroom
      refine hspace.append (.silent hinsert ?_)
      have habsorb : Trace (ReceiveStep In) _ _ _ := absorbEntries_trace tcb
        (tcb.oooHead.takeWhile (fun entry => seqLeq (entryEnd entry) seq) ++
          [⟨seq, BitVec.ofNat 32 data.length, data⟩])
        (entryEnd ⟨seq, BitVec.ofNat 32 data.length, data⟩) (BitVec.ofNat 32 data.length)
        (tcb.oooHead.dropWhile fun entry => seqLeq (entryEnd entry) seq) tcb.oooBytes
      rw [List.append_assoc, List.append_assoc] at habsorb
      exact habsorb

theorem trimReceived_trace (tcb : Tcb) (entry : TcpqEntry) (rest : List TcpqEntry)
    (hend : ¬ seqLeq (entryEnd entry) tcb.rcvNxt = true) :
    Trace (ReceiveStep In) { tcb with oooHead := entry :: rest }
      (if seqLt entry.seq tcb.rcvNxt then [.trim (tcb.rcvNxt - entry.seq) entry.len] else [])
      { tcb with
        oooHead := trimReceived tcb.rcvNxt entry :: rest
        oooBytes :=
          tcb.oooBytes - if seqLt entry.seq tcb.rcvNxt then tcb.rcvNxt - entry.seq else 0 } := by
  unfold trimReceived
  split
  · rename_i hstart
    have hstep : ReceiveStep In _ _ _ := ReceiveStep.trim { tcb with oooHead := entry :: rest }
      entry [] rest tcb.rcvNxt rfl hstart (by simpa using hend)
    exact .single hstep
  · have hzero : tcb.oooBytes - 0 = tcb.oooBytes := BitVec.sub_zero _
    rw [hzero]
    exact .nil _

theorem drainOooQueue_trace (queue : List TcpqEntry) :
    ∀ tcb : Tcb,
      Trace (ReceiveStep In) { tcb with oooHead := queue } (drainOooQueue tcb queue).log
        (drainOooQueue tcb queue).tcb := by
  induction queue with
  | nil =>
      intro tcb
      exact .nil _
  | cons entry rest ih =>
      intro tcb
      simp only [drainOooQueue]
      split
      · have hstep : ReceiveStep In _ _ _ := ReceiveStep.absorb
          { tcb with oooHead := entry :: rest } entry [] rest rfl
        have hrest := ih { tcb with oooBytes := tcb.oooBytes - entry.len }
        exact .silent hstep hrest
      · rename_i hend
        have htrim : Trace (ReceiveStep In) _ _ _ := trimReceived_trace tcb entry rest hend
        let tcb' : Tcb :=
          { tcb with
            oooHead := trimReceived tcb.rcvNxt entry :: rest
            oooBytes :=
              tcb.oooBytes - if seqLt entry.seq tcb.rcvNxt then tcb.rcvNxt - entry.seq else 0 }
        split
        · exact htrim
        · rename_i hseq
          rw [ne_eq, not_not] at hseq
          split
          · rename_i hroom
            have hfull : ReceiveStep In tcb' _ _ :=
              .drainFull tcb' (trimReceived tcb.rcvNxt entry) rest rfl hroom
            exact htrim.append (.single hfull)
          · rename_i hroom
            have hdrain : ReceiveStep In tcb' _ _ :=
              .drain tcb' (trimReceived tcb.rcvNxt entry) rest rfl hseq hroom
            have hrest := ih
              { acceptBytes { tcb' with oooHead := tcb.oooHead }
                  (trimReceived tcb.rcvNxt entry).data with
                oooBytes := tcb'.oooBytes - (trimReceived tcb.rcvNxt entry).len }
            exact htrim.append (.cons hdrain hrest)

theorem ofOutput {tcb tcb' : Tcb} {log : List Event} (h : Trace OutputStep tcb log tcb') :
    Trace (TcbStep In Ex) tcb log tcb' :=
  h.mono fun _ _ _ hstep => .output hstep

theorem outputData {tcb tcb' : Tcb} {log : List Event} (h : Trace OutputStep tcb log tcb') :
    Trace (DataStep In) tcb log tcb' :=
  h.mono fun _ _ _ hstep => .output hstep

theorem receiveData {tcb tcb' : Tcb} {log : List Event}
    (h : Trace (ReceiveStep In) tcb log tcb') : Trace (DataStep In) tcb log tcb' :=
  h.mono fun _ _ _ hstep => .receive hstep

theorem acknowOutput_trace (readings : Nat → Reading) (tcb : Tcb) :
    Trace OutputStep tcb (utcpOutput readings (setAcknow tcb)).log
      (utcpOutput readings (setAcknow tcb)).tcb :=
  .silent (.flags tcb true tcb.tfDelack) (utcpOutput_trace readings _)

theorem scheduleAck_trace (tcb : Tcb) (gapFilled : Bool) :
    Trace OutputStep tcb [] (scheduleAck tcb gapFilled) := by
  unfold scheduleAck
  split
  · exact .silent (.flags tcb true false) (.single (.delack _ 0))
  · exact .silent (.flags tcb tcb.tfAcknow true) (.single (.delack _ tcptvDelack))

theorem acceptInOrder_trace {tcb : Tcb} {seg : TcpSegment} {data : List U8} (hseg : In seg)
    (hdata : Carries seg tcb.rcvNxt data)
    (hroom : data.length ≤ (recvBufSize - bufUsed tcb - tcb.oooBytes).toNat) :
    Trace (DataStep In) tcb (acceptInOrder tcb data).log (acceptInOrder tcb data).tcb := by
  have haccept : ReceiveStep In _ _ _ := .accept tcb seg data hseg hdata hroom
  have hdrain : Trace (ReceiveStep In) _ _ _ :=
    drainOooQueue_trace (acceptBytes tcb data).oooHead (acceptBytes tcb data)
  exact (receiveData (.event haccept hdrain)).hush (outputData (scheduleAck_trace ..))

theorem placeData_trace (env : Env) {tcb : Tcb} {seg : TcpSegment} {seqNum : U32}
    {data : List U8} (hseg : In seg) (hdata : Carries seg seqNum data) :
    Trace (DataStep In) tcb (placeData env tcb seqNum data).log
      (placeData env tcb seqNum data).tcb := by
  by_cases hseq : seqNum = tcb.rcvNxt
  · subst hseq
    have hspace : DataStep In tcb [.freeSpace (bufUsed tcb) tcb.oooBytes] tcb :=
      .receive (.space tcb)
    by_cases hroom : data.length ≤ (recvBufSize - bufUsed tcb - tcb.oooBytes).toNat
    · rw [placeData_fits env hroom]
      exact leaves (.event hspace
        ((acceptInOrder_trace hseg hdata hroom).append (outputData (utcpOutput_trace ..))))
    · rw [placeData_full env hroom]
      exact leaves (.single hspace)
  · rw [placeData_other env data hseq]
    exact leaves ((receiveData (insertOooSegment_trace env hseg hdata)).append
      (outputData (acknowOutput_trace env.output _)))

theorem handleData_trace (env : Env) {tcb : Tcb} {seg : TcpSegment} (hseg : In seg) :
    Trace (DataStep In) tcb (handleData env tcb seg).log (handleData env tcb seg).tcb := by
  simp only [handleData]
  split
  · exact outputData (utcpOutput_trace ..)
  · rename_i hne
    split
    · split
      · exact outputData (acknowOutput_trace env.output tcb)
      · rename_i hskip
        rw [ge_iff_le, Nat.not_le] at hskip
        exact placeData_trace env hseg ⟨tcb.rcvNxt - seg.hdr.thSeq, hskip, rfl, rfl⟩
    · refine placeData_trace env hseg ⟨0, ?_, (BitVec.add_zero _).symm, rfl⟩
      exact List.length_pos_of_ne_nil hne

theorem dataStep_state {tcb tcb' : Tcb} {log : List Event} (h : DataStep In tcb log tcb') :
    tcb'.state = tcb.state := by
  cases h with
  | output h => exact outputStep_state h
  | receive h =>
      cases h with
      | accept seg data hseg hdata hroom => exact acceptBytes_state tcb data
      | drain entry rest hqueue hseq hroom => exact acceptBytes_state tcb entry.data
      | _ => rfl

theorem ofData {tcb tcb' : Tcb} {log : List Event} (hstate : Receiving tcb)
    (h : Trace (DataStep In) tcb log tcb') : Trace (TcbStep In Ex) tcb log tcb' := by
  induction h with
  | nil tcb => exact .nil tcb
  | cons hstep _ ih =>
      have hstate' := dataStep_state hstep
      refine .cons ?_ (ih ?_)
      · cases hstep with
        | output h => exact .output h
        | receive h => exact .receive hstate h
      · rw [Receiving, hstate']
        exact hstate

theorem walkOptions_eq (mem : Nat → U8) (optEnd fuel : Nat) :
    ∀ (optPtr : Nat) (tcb : Tcb),
      ∃ sndScale scaleEnabled tsRecent tsEnabled,
        walkOptions mem optEnd fuel optPtr tcb =
          { tcb with sndScale, scaleEnabled, tsRecent, tsEnabled } := by
  have hwindow : ∀ (optPtr : Nat) (tcb : Tcb), ∃ sndScale scaleEnabled,
      takeWindow mem optPtr tcb = { tcb with sndScale, scaleEnabled } := by
    intro optPtr tcb
    unfold takeWindow
    split
    · exact ⟨_, _, rfl⟩
    · exact ⟨tcb.sndScale, tcb.scaleEnabled, rfl⟩
  have htimestamp : ∀ (optPtr : Nat) (tcb : Tcb), ∃ tsRecent tsEnabled,
      takeTimestamp mem optPtr tcb = { tcb with tsRecent, tsEnabled } := by
    intro optPtr tcb
    unfold takeTimestamp
    split
    · exact ⟨_, _, rfl⟩
    · exact ⟨tcb.tsRecent, tcb.tsEnabled, rfl⟩
  induction fuel with
  | zero => exact fun optPtr tcb => ⟨_, _, _, _, rfl⟩
  | succ fuel ih =>
      intro optPtr tcb
      simp only [walkOptions]
      split
      · exact ⟨_, _, _, _, rfl⟩
      · split
        · exact ⟨_, _, _, _, rfl⟩
        · split
          · exact ih _ tcb
          · split
            · exact ⟨_, _, _, _, rfl⟩
            · split
              · exact ⟨_, _, _, _, rfl⟩
              · obtain ⟨sndScale, scaleEnabled, hw⟩ := hwindow optPtr tcb
                obtain ⟨tsRecent, tsEnabled, ht⟩ :=
                  htimestamp optPtr (takeWindow mem optPtr tcb)
                rw [ht, hw]
                exact ih _ _

theorem processWindowOption_eq (env : Env) (seg : TcpSegment) (tcb : Tcb) :
    ∃ sndScale scaleEnabled tsRecent tsEnabled,
      processWindowOption env seg tcb =
        { tcb with sndScale, scaleEnabled, tsRecent, tsEnabled } := by
  unfold processWindowOption
  split
  · exact walkOptions_eq ..
  · exact ⟨_, _, _, _, rfl⟩

@[simp] theorem processWindowOption_state (env : Env) (seg : TcpSegment) (tcb : Tcb) :
    (processWindowOption env seg tcb).state = tcb.state := by
  obtain ⟨_, _, _, _, heq⟩ := processWindowOption_eq env seg tcb
  rw [heq]

theorem updateEstimates_eq (tcb : Tcb) (rttTicks : Int) :
    ∃ tSrtt tRttvar, updateEstimates tcb rttTicks = { tcb with tSrtt, tRttvar } := by
  unfold updateEstimates
  split
  · exact ⟨_, _, rfl⟩
  · exact ⟨_, _, rfl⟩

theorem utcpXmitTimer_eq (tcb : Tcb) (rttUs : U32) :
    ∃ tSrtt tRttvar minRttSeenUs,
      utcpXmitTimer tcb rttUs =
        { tcb with tSrtt, tRttvar, minRttSeenUs, tRxtcur := rxtcurOf tSrtt tRttvar } := by
  obtain ⟨tSrtt, tRttvar, heq⟩ := updateEstimates_eq tcb
    (if (rttUs / tickUs).toInt < 1 then 1 else (rttUs / tickUs).toInt)
  refine ⟨tSrtt, tRttvar, (utcpXmitTimer tcb rttUs).minRttSeenUs, ?_⟩
  simp only [utcpXmitTimer, heq]

@[simp] theorem utcpXmitTimer_state (tcb : Tcb) (rttUs : U32) :
    (utcpXmitTimer tcb rttUs).state = tcb.state := by
  obtain ⟨_, _, _, heq⟩ := utcpXmitTimer_eq tcb rttUs
  rw [heq]

theorem ackStep_state {tcb tcb' : Tcb} {log : List Event} (h : AckStep In tcb log tcb') :
    tcb'.state = tcb.state := by
  cases h with
  | options env seg hseg => exact processWindowOption_state env seg tcb
  | sample rttUs => exact utcpXmitTimer_state tcb rttUs
  | rearm env =>
      unfold rearmRexmt
      split <;> rfl
  | _ => rfl

theorem controlStep_state {tcb tcb' : Tcb} {log : List Event}
    (h : ControlStep In tcb log tcb') : tcb'.state = tcb.state := by
  cases h with
  | output h => exact outputStep_state h
  | ack h => exact ackStep_state h

theorem ofControl {tcb tcb' : Tcb} {log : List Event} (hstate : Receiving tcb)
    (h : Trace (ControlStep In) tcb log tcb') : Trace (TcbStep In Ex) tcb log tcb' := by
  induction h with
  | nil tcb => exact .nil tcb
  | cons hstep _ ih =>
      have hstate' := controlStep_state hstep
      refine .cons ?_ (ih ?_)
      · cases hstep with
        | output h => exact .output h
        | ack h => exact .ack hstate h
      · rw [Receiving, hstate']
        exact hstate

theorem acksControl {tcb tcb' : Tcb} {log : List Event} (h : Trace (AckStep In) tcb log tcb') :
    Trace (ControlStep In) tcb log tcb' :=
  h.mono fun _ _ _ hstep => .ack hstep

theorem measureRtt_trace (env : Env) (seg : TcpSegment) (tcb : Tcb) :
    Trace (AckStep In) tcb [] (measureRtt env seg tcb).1 := by
  unfold measureRtt
  split
  · split
    · split
      · exact .nil tcb
      · exact .single (.sample tcb _)
    · exact .nil tcb
  · split
    · exact .single (.sample tcb _)
    · exact .nil tcb

theorem beforeAckEvent_trace (env : Env) {tcb : Tcb} {seg : TcpSegment} (hseg : In seg)
    (hack : validAck tcb seg.hdr.thAck) :
    Trace (AckStep In) tcb (beforeAckEvent env tcb seg).log (beforeAckEvent env tcb seg).tcb :=
  .silent (.ack tcb seg hseg hack)
    ((measureRtt_trace env seg _).append (.single (.rearm _ env)))

theorem handleSameAck_trace {env : Env} {tcb : Tcb} {seg : TcpSegment} {out : Out}
    (hseg : In seg) (hack : seg.hdr.thAck = tcb.sndUna)
    (h : handleSameAck env tcb seg = some out) :
    Trace (ControlStep In) tcb out.log out.tcb := by
  have hwindow : AckStep In tcb [] { tcb with sndWnd := getScaledWin tcb seg.hdr } :=
    .window tcb seg hseg hack
  simp only [handleSameAck] at h
  split at h
  · cases h
    exact ackControl hwindow
  · split at h
    · refine .silent (.ack hwindow)
        ((congestion_trace _ _ _ _ _ _ _).append (congControl_trace ?_ h))
      intro flight
      simp
    · cases h
      exact .nil tcb

theorem handleAck_trace {env : Env} {tcb : Tcb} {seg : TcpSegment} {out : Out}
    (hseg : In seg) (h : handleAck env tcb seg = some out) :
    Trace (ControlStep In) tcb out.log out.tcb := by
  simp only [handleAck] at h
  split at h
  · rename_i hack
    obtain ⟨cc, hcc, hout⟩ := Option.bind_eq_some_iff.mp h
    cases hout
    exact (acksControl (beforeAckEvent_trace env hseg hack)).append
      (congControl_trace (by simp) hcc)
  · split at h
    · rename_i hack
      exact handleSameAck_trace hseg hack h
    · cases h
      exact .nil tcb

theorem tcbStep_receiving {tcb tcb' : Tcb} {log : List Event}
    (h : TcbStep In Ex tcb log tcb') (hstate : Receiving tcb) : Receiving tcb' := by
  cases h with
  | output h => rw [Receiving, outputStep_state h]; exact hstate
  | receive _ h =>
      have heq := dataStep_state (.receive h)
      rw [Receiving, heq]
      exact hstate
  | ack _ h => rw [Receiving, ackStep_state h]; exact hstate
  | timer h => cases h <;> exact hstate
  | opening h =>
      cases h with
      | connect ip port hclosed =>
          rw [Receiving, hclosed] at hstate
          simp at hstate
      | syn env seg peer hseg hlisten hflag =>
          rw [Receiving, hlisten] at hstate
          simp at hstate
      | synAck env seg hseg hsent hawaited =>
          rw [Receiving, hsent] at hstate
          simp at hstate
      | finalAck => exact .inr rfl

theorem trace_receiving {tcb tcb' : Tcb} {log : List Event}
    (h : Trace (TcbStep In Ex) tcb log tcb') (hstate : Receiving tcb) : Receiving tcb' :=
  h.invariant (fun _ _ _ hstep => tcbStep_receiving hstep) hstate

theorem handleReceivedData_trace {env : Env} {tcb : Tcb} {seg : TcpSegment} {out : Out}
    (hstate : Receiving tcb) (hseg : In seg)
    (h : handleReceivedData env tcb seg = some out) :
    Trace (TcbStep In Ex) tcb out.log out.tcb := by
  obtain ⟨acked, hacked, hout⟩ := Option.bind_eq_some_iff.mp h
  cases hout
  have hoptions : TcbStep In Ex tcb [] _ := .ack hstate (.options tcb env seg hseg)
  have htrace : Trace (TcbStep In Ex) _ _ _ :=
    .silent hoptions (ofControl (tcbStep_receiving hoptions hstate)
      (handleAck_trace hseg hacked))
  exact htrace.append (ofData (trace_receiving htrace hstate) (handleData_trace env hseg))

theorem utcpTimers_rexmt (env : Env) (tcb : Tcb) :
    ∃ recover,
      utcpTimers env (setTimer tcb .rexmt (tcb.tTimer .rexmt - 1)) .rexmt =
        some
          ⟨(utcpOutput env.output (expireRexmt env tcb recover)).tcb,
            [.expired .rexmt, .backoff (tcb.tRxtshift + 1).toNat] ++
              (utcpOutput env.output (expireRexmt env tcb recover)).log⟩ := by
  let expired := setTimer tcb .rexmt (tcb.tTimer .rexmt - 1)
  obtain ⟨recover, htimeout⟩ := congControl_timeout env (goBack env expired) (flightSize expired)
  refine ⟨recover, ?_⟩
  simp only [utcpTimers]
  rw [htimeout]
  rfl

theorem outputClock {tcb tcb' : Tcb} {log : List Event} (h : Trace OutputStep tcb log tcb') :
    Trace (ClockStep Ex) tcb log tcb' :=
  h.mono fun _ _ _ hstep => .output hstep

theorem tickTimer_trace {env : Env} {tcb : Tcb} {timer : Timer} {out : Out}
    (hEx : timer = .rexmt → tcb.tTimer .rexmt = 1 → Ex tcb.tRxtshift)
    (h : tickTimer env tcb timer = some out) :
    Trace (ClockStep Ex) tcb out.log out.tcb := by
  simp only [tickTimer] at h
  split at h
  · rename_i hpos
    have hone : (setTimer tcb timer (tcb.tTimer timer - 1)).tTimer timer = 0 ↔
        tcb.tTimer timer = 1 := by
      simp only [setTimer, if_true]
      rw [BitVec.sub_eq_iff_eq_add]
      exact Iff.rfl
    split at h
    · rename_i hzero
      have hticks := hone.mp hzero
      cases timer with
      | rexmt =>
          obtain ⟨recover, heq⟩ := utcpTimers_rexmt env tcb
          rw [heq] at h
          cases h
          exact .cons (.timer (.rexmt tcb env recover hticks (hEx rfl hticks)))
            (outputClock (utcpOutput_trace ..))
      | delack =>
          cases h
          have hexpired : ClockStep Ex tcb [.expired .delack] _ :=
            .timer (.other tcb .delack hticks (by simp))
          exact .cons hexpired
            (.silent (.output (.flags _ true false)) (outputClock (utcpOutput_trace ..)))
      | persist =>
          cases h
          exact .single (.timer (.other tcb .persist hticks (by simp)))
      | keep =>
          cases h
          exact .single (.timer (.other tcb .keep hticks (by simp)))
      | twoMsl =>
          cases h
          exact .single (.timer (.other tcb .twoMsl hticks (by simp)))
    · rename_i hzero
      cases h
      refine .single (.timer (.countDown tcb timer ?_))
      have hne : (tcb.tTimer timer).toInt ≠ 1 := by
        intro heq
        exact hzero (hone.mpr (BitVec.eq_of_toInt_eq heq))
      omega
  · cases h
    exact .nil tcb

theorem tickTimers_trace {envs : Timer → Env} (timers : List Timer)
    (hnot : Timer.rexmt ∉ timers) :
    ∀ {tcb : Tcb} {out : Out}, tickTimers envs timers tcb = some out →
      Trace (ClockStep Ex) tcb out.log out.tcb := by
  induction timers with
  | nil =>
      intro tcb out h
      cases h
      exact .nil tcb
  | cons timer timers ih =>
      intro tcb out h
      obtain ⟨first, hfirst, h⟩ := Option.bind_eq_some_iff.mp h
      obtain ⟨rest, hrest, h⟩ := Option.bind_eq_some_iff.mp h
      cases h
      rw [List.mem_cons, not_or] at hnot
      exact (tickTimer_trace (fun heq => absurd heq.symm hnot.1) hfirst).append
        (ih hnot.2 hrest)

theorem utcpSlowtimo_trace {envs : Timer → Env} {tcb : Tcb} {out : Out}
    (hEx : tcb.tTimer .rexmt = 1 → Ex tcb.tRxtshift) (h : utcpSlowtimo envs tcb = some out) :
    Trace (ClockStep Ex) tcb out.log out.tcb := by
  unfold utcpSlowtimo at h
  split at h
  · cases h
    exact .nil tcb
  · obtain ⟨first, hfirst, h⟩ := Option.bind_eq_some_iff.mp h
    obtain ⟨rest, hrest, h⟩ := Option.bind_eq_some_iff.mp h
    cases h
    refine .silent (.timer (.clock tcb _ _)) ((tickTimer_trace ?_ hfirst).append
      (tickTimers_trace _ (by decide) hrest))
    exact fun _ hticks => hEx hticks

theorem clockTrace_state {tcb tcb' : Tcb} {log : List Event} (h : Trace (ClockStep Ex) tcb log tcb') :
    tcb'.state = tcb.state := by
  refine h.invariant (I := fun t => t.state = tcb.state) (fun _ _ _ hstep hs => ?_) rfl
  cases hstep with
  | output h => exact (outputStep_state h).trans hs
  | timer h => cases h <;> exact hs

theorem ofClock {tcb tcb' : Tcb} {log : List Event} (h : Trace (ClockStep Ex) tcb log tcb') :
    Trace (TcbStep In Ex) tcb log tcb' := by
  refine h.mono fun _ _ _ hstep => ?_
  cases hstep with
  | output h => exact .output h
  | timer h => exact .timer h

theorem synRecvInput_trace {env : Env} {tcb : Tcb} {seg : TcpSegment} {out : Out}
    (hstate : tcb.state = .synRecv) (hseg : In seg) (h : synRecvInput env tcb seg = some out) :
    Trace (TcbStep In Ex) tcb out.log out.tcb := by
  unfold synRecvInput at h
  split at h
  · rename_i hcompletes
    have hfinal : TcbStep In Ex tcb [] _ := .opening (.finalAck tcb seg hseg hstate hcompletes)
    exact .silent hfinal (ofControl (.inr rfl) (congControl_trace (by simp) h))
  · cases h
    exact .nil tcb

theorem utcpInput_trace {env : Env} {tcb : Tcb} {seg : TcpSegment} {peer : Peer} {out : Out}
    (hseg : In seg) (h : utcpInput env tcb seg peer = some out) :
    Trace (TcbStep In Ex) tcb out.log out.tcb := by
  unfold utcpInput at h
  split at h
  · rename_i hstate
    split at h
    · rename_i hflag
      cases h
      exact .silent (.opening (.syn tcb env seg peer hseg hstate hflag))
        (ofOutput (utcpOutput_trace ..))
    · cases h
      exact .nil tcb
  · rename_i hstate
    split at h
    · rename_i hawaited
      obtain ⟨cc, hcc, h⟩ := Option.bind_eq_some_iff.mp h
      cases h
      have hsynAck : TcbStep In Ex tcb [] _ :=
        .opening (.synAck tcb env seg hseg hstate hawaited)
      have hestablished : (acceptSynAck env tcb seg).state = .established := by
        simp [acceptSynAck]
      exact .silent hsynAck
        ((ofControl (.inr hestablished) (congControl_trace (by simp) hcc)).append
          (ofOutput (acknowOutput_trace ..)))
    · cases h
      exact .nil tcb
  · rename_i hstate
    obtain ⟨cc, hcc, h⟩ := Option.bind_eq_some_iff.mp h
    obtain ⟨rest, hrest, h⟩ := Option.bind_eq_some_iff.mp h
    cases h
    have htrace : Trace (TcbStep In Ex) _ _ _ := synRecvInput_trace hstate hseg hcc
    exact htrace.append
      (handleReceivedData_trace (trace_receiving htrace (.inl hstate)) hseg hrest)
  · rename_i hstate
    exact handleReceivedData_trace (.inr hstate) hseg h
  · cases h
    exact .nil tcb

theorem utcpConnect_trace (env : Env) {tcb : Tcb} (ip : U32) (port : U16)
    (hstate : tcb.state = .closed) :
    Trace (TcbStep In Ex) tcb (utcpConnect env tcb ip port).log
      (utcpConnect env tcb ip port).tcb :=
  .silent (.opening (.connect tcb ip port hstate)) (ofOutput (utcpOutput_trace ..))

theorem lift_trace {tcb tcb' : Tcb} {log : List Event} (h : Trace (TcbStep In Ex) tcb log tcb') :
    ∀ e : Endpoint, e.tcb = tcb →
      Trace (EndpointStep In Ex) e log { e with tcb := tcb', history := e.history ++ log } := by
  induction h with
  | nil tcb =>
      intro e he
      subst he
      rw [List.append_nil]
      exact .nil e
  | @cons tcb tcb' tcb'' log log' hstep _ ih =>
      intro e he
      subst he
      rw [← List.append_assoc]
      exact .cons (.tcb hstep) (ih { e with tcb := tcb', history := e.history ++ log } rfl)

theorem sendLoop_trace (envs : Nat → Env) (fuel : Nat) :
    ∀ (turn : Nat) (e : Endpoint), e.tcb.state = .established →
      ∃ chunk, e.pending = chunk ++ (sendLoop envs fuel turn e.tcb e.pending).2 ∧
        Trace (EndpointStep In Ex) e (sendLoop envs fuel turn e.tcb e.pending).1.log
          { e with
            tcb := (sendLoop envs fuel turn e.tcb e.pending).1.tcb
            written := e.written ++ chunk
            pending := (sendLoop envs fuel turn e.tcb e.pending).2
            history := e.history ++ (sendLoop envs fuel turn e.tcb e.pending).1.log } := by
  have hstop : ∀ e : Endpoint, ∃ chunk, e.pending = chunk ++ e.pending ∧
      Trace (EndpointStep In Ex) e []
        { e with written := e.written ++ chunk, history := e.history ++ [] } := by
    intro e
    refine ⟨[], rfl, ?_⟩
    rw [List.append_nil, List.append_nil]
    exact .nil e
  induction fuel with
  | zero => exact fun turn e _ => hstop e
  | succ fuel ih =>
      intro turn e hstate
      simp only [sendLoop]
      split
      · exact hstop e
      · let n := min e.pending.length (sendFreeSpace e.tcb).toNat
        have hwrite : EndpointStep In Ex e [] _ :=
          .write e n hstate (Nat.min_le_right _ _) (Nat.min_le_left _ _)
        let tcb := writeChunk e.tcb (e.pending.take n)
        have houtput : Trace (EndpointStep In Ex) _ _ _ :=
          lift_trace (ofOutput (utcpOutput_trace (envs turn).output tcb))
            { e with
              tcb := tcb
              written := e.written ++ e.pending.take n
              pending := e.pending.drop n } rfl
        obtain ⟨chunk, hchunk, hrest⟩ := ih (turn + 1)
          { e with
            tcb := (utcpOutput (envs turn).output tcb).tcb
            written := e.written ++ e.pending.take n
            pending := e.pending.drop n
            history := e.history ++ (utcpOutput (envs turn).output tcb).log }
          ((utcpOutput_state ..).trans ((writeChunk_state ..).trans hstate))
        refine ⟨e.pending.take n ++ chunk, ?_, ?_⟩
        · rw [List.append_assoc, ← hchunk, List.take_append_drop]
        · rw [← List.append_assoc, ← List.append_assoc]
          exact .silent hwrite (houtput.append hrest)

theorem sendSection_trace (envs : Nat → Env) {e : Endpoint} (hstate : e.tcb.state = .established) :
    Trace (EndpointStep In Ex) e (e.sendSection envs e.pending).2
      (e.sendSection envs e.pending).1 := by
  obtain ⟨chunk, hchunk, htrace⟩ := sendLoop_trace envs e.pending.length 0 e hstate
  have htake : e.pending.take
      (e.pending.length - (utcpSend envs e.tcb e.pending).2.length) = chunk := by
    have hsplit : e.pending = chunk ++ (utcpSend envs e.tcb e.pending).2 := hchunk
    generalize (utcpSend envs e.tcb e.pending).2 = left at hsplit
    rw [hsplit, List.length_append, Nat.add_sub_cancel, List.take_left]
  simp only [Endpoint.sendSection, Endpoint.finish]
  rw [htake]
  exact htrace

theorem utcpRead_trace (env : Env) {e : Endpoint} (len : Nat)
    (hstate : e.tcb.state = .established) :
    Trace (EndpointStep In Ex) e (utcpRead env e.tcb len).1.log
      { e with
        tcb := (utcpRead env e.tcb len).1.tcb
        delivered := e.delivered ++ (utcpRead env e.tcb len).2
        history := e.history ++ (utcpRead env e.tcb len).1.log } := by
  let n := min len (bufUsed e.tcb).toNat
  have hread : EndpointStep In Ex e [] _ := .read e n hstate (Nat.min_le_right _ _)
  have hstate' : Receiving (takeBytes e.tcb n) := .inr ((takeBytes_state ..).trans hstate)
  have hspace : Trace (TcbStep In Ex) (takeBytes e.tcb n) _ _ :=
    .single (.receive hstate' (.space _))
  simp only [utcpRead]
  split
  · have hout : Trace (TcbStep In Ex) (takeBytes e.tcb n) _ _ :=
      ofOutput (acknowOutput_trace env.output _)
    exact .silent hread (lift_trace (hspace.append hout) _ rfl)
  · exact .silent hread (lift_trace hspace _ rfl)

theorem afterRead_trace {e : Endpoint} {result : Out × List U8}
    (h : Trace (EndpointStep In Ex) e result.1.log
      { e with
        tcb := result.1.tcb
        delivered := e.delivered ++ result.2
        history := e.history ++ result.1.log }) :
    Trace (EndpointStep In Ex) e (e.afterRead result).2 (e.afterRead result).1 := h

theorem sendLoop_state (envs : Nat → Env) (fuel : Nat) :
    ∀ (turn : Nat) (tcb : Tcb) (remaining : List U8),
      (sendLoop envs fuel turn tcb remaining).1.tcb.state = tcb.state := by
  induction fuel with
  | zero => exact fun _ _ _ => rfl
  | succ fuel ih =>
      intro turn tcb remaining
      simp only [sendLoop]
      split
      · rfl
      · exact (ih _ _ _).trans ((utcpOutput_state ..).trans (writeChunk_state ..))

theorem utcpRead_state (env : Env) (tcb : Tcb) (len : Nat) :
    (utcpRead env tcb len).1.tcb.state = tcb.state := by
  simp only [utcpRead]
  split
  · exact (outputTrace_state (acknowOutput_trace ..)).trans (takeBytes_state ..)
  · exact takeBytes_state ..

/-- A critical section is a trace of the steps of an endpoint. -/
theorem run_trace {e e' : Endpoint} {s : Section} {log : List Event}
    (hIn : ∀ env seg peer, s = .input env seg peer → In seg)
    (hEx : ∀ envs, s = .slowtimo envs → e.tcb.tTimer .rexmt = 1 → Ex e.tcb.tRxtshift)
    (h : e.run s = some (e', log)) : Trace (EndpointStep In Ex) e log e' := by
  cases s with
  | connect env ip port =>
      simp only [Endpoint.run] at h
      split at h
      · rename_i hstate
        cases h
        exact lift_trace (utcpConnect_trace env ip port hstate) e rfl
      · cases h
  | input env seg peer =>
      obtain ⟨out, hout, h⟩ := Option.map_eq_some_iff.mp h
      cases h
      exact lift_trace (utcpInput_trace (hIn env seg peer rfl) hout) e rfl
  | slowtimo envs =>
      obtain ⟨out, hout, h⟩ := Option.map_eq_some_iff.mp h
      cases h
      exact lift_trace (ofClock (utcpSlowtimo_trace (hEx envs rfl) hout)) e rfl
  | send envs bytes =>
      simp only [Endpoint.run] at h
      split at h
      · rename_i hcall
        let called := { e with pending := bytes }
        have hstep : EndpointStep In Ex e [] called := .call e bytes hcall.1 hcall.2
        have hsend : Trace (EndpointStep In Ex) called _ _ := sendSection_trace envs hcall.1
        rw [show called.sendSection envs called.pending = (e', log) from Option.some.inj h] at hsend
        exact .silent hstep hsend
      · cases h
  | wake envs =>
      simp only [Endpoint.run] at h
      split at h
      · rename_i hwake
        have hsend : Trace (EndpointStep In Ex) _ _ _ := sendSection_trace envs hwake.1
        rw [Option.some.inj h] at hsend
        exact hsend
      · cases h
  | read env len =>
      simp only [Endpoint.run] at h
      split at h
      · rename_i hread
        have htrace : Trace (EndpointStep In Ex) _ _ _ :=
          afterRead_trace (utcpRead_trace env len hread.1)
        rw [Option.some.inj h] at htrace
        exact htrace
      · cases h

end Utcp.Sections
