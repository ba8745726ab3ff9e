import Utcp.SectionCases
import Utcp.Timeouts

/-!
The reads of `tcp_backoff`: where they lie in the table, and how a peer that never
answers leads past its end.
-/

namespace Utcp.Backoff

open TransitionSystems
open Traces
open Utcp.Tcp
open Utcp.Utils
open Utcp.Output
open Utcp.CongestionControl
open Utcp.Timers
open Utcp.Input
open Utcp.Api
open Utcp.Network
open Utcp.Steps
open Utcp.Sections
open Utcp.SectionCases
open Utcp.Timeouts

variable {In : TcpSegment → Prop} {tcb tcb' : Tcb} {log : List Event}

/-- A read of `tcp_backoff`, if the event is one, lies in the table. -/
def InTable : Event → Prop
  | .backoff index => index ≤ tcpMaxrxtshift
  | _ => True

/-- The timer expires only while its counter can still be increased. -/
def Increases (tRxtshift : U8) : Prop := tRxtshift.toNat < tcpMaxrxtshift

theorem Increases.next {tRxtshift : U8} (h : Increases tRxtshift) :
    (tRxtshift + 1).toNat ≤ tcpMaxrxtshift := by
  have hlt : tRxtshift.toNat < tcpMaxrxtshift := h
  have hmax : tcpMaxrxtshift = 12 := rfl
  rw [BitVec.toNat_add, Nat.mod_eq_of_lt]
  · change tRxtshift.toNat + 1 ≤ tcpMaxrxtshift
    omega
  · change tRxtshift.toNat + 1 < 256
    omega

/-- The counter is an index of the table, and the timer of a closed block is off. -/
structure Bounded (tcb : Tcb) : Prop where
  shift : tcb.tRxtshift.toNat ≤ tcpMaxrxtshift
  closed : tcb.state = .closed → tcb.tTimer .rexmt = 0

theorem inTable_sent (used reserved : U32) (origin : Origin) (timeUs : U64) (seg : TcpSegment) :
    ∀ event ∈ [Event.freeSpace used reserved, .sent origin timeUs seg], InTable event := by
  intro event hevent
  rcases List.mem_cons.mp hevent with rfl | hevent
  · trivial
  · rw [List.mem_singleton.mp hevent]
    trivial

theorem outputStep_bounded (h : OutputStep tcb log tcb') (hb : Bounded tcb) :
    Bounded tcb' ∧ ∀ event ∈ log, InTable event := by
  cases h with
  | flags => exact ⟨⟨hb.shift, hb.closed⟩, by simp⟩
  | delack => exact ⟨⟨hb.shift, hb.closed⟩, by simp⟩
  | bare timeUs hlen hsyn => exact ⟨hb, inTable_sent _ _ _ _ _⟩
  | advance timeUs newSynFin hsyn hadvance =>
      obtain ⟨_, _, _, heq⟩ := advanceSndNxt_eq tcb (outputLength tcb) newSynFin
      refine ⟨⟨?_, ?_⟩, inTable_sent _ _ _ _ _⟩
      · rw [heq]
        exact hb.shift
      · intro hclosed
        -- a closed block sends neither data nor a SYN
        rw [advanceSndNxt_state] at hclosed
        have hnone : outputLength tcb = 0 := by
          rw [outputLength, if_neg (by rw [hclosed]; decide)]
        have hbare : sendingNewSynFin (tcpOutflags tcb.state) tcb = false := by
          rw [sendingNewSynFin, hclosed]
          rfl
        rw [hnone, ← hsyn, hbare] at hadvance
        simp at hadvance

theorem receiveStep_bounded (h : ReceiveStep In tcb log tcb') (hb : Bounded tcb) :
    Bounded tcb' ∧ ∀ event ∈ log, InTable event := by
  obtain ⟨_, _, _, _, _, heq⟩ := receiveTrace_eq (.single h)
  refine ⟨?_, ?_⟩
  · rw [heq]
    exact ⟨hb.shift, hb.closed⟩
  · cases h <;> simp [InTable]

theorem retransmit_inTable (reading : Reading) (tcb : Tcb) (seq : U32) :
    ∀ event ∈ utcpRetransmitSegment reading tcb seq, InTable event := by
  unfold utcpRetransmitSegment
  split
  · simp
  · unfold utcpSendSegment
    split
    · exact inTable_sent _ _ _ _ _
    · simp

theorem rearmRexmt_bounded (env : Env) (hb : Bounded tcb) :
    (rearmRexmt env tcb).tcb.tRxtshift.toNat ≤ tcpMaxrxtshift ∧
      ∀ event ∈ (rearmRexmt env tcb).log, InTable event := by
  unfold rearmRexmt
  split
  · exact ⟨Nat.zero_le _, by simp⟩
  · refine ⟨hb.shift, ?_⟩
    dsimp only
    split
    · intro event hevent
      rw [List.mem_singleton.mp hevent]
      exact hb.shift
    · simp

theorem Bounded.of_receiving (hstate : Receiving tcb) (hshift : tcb.tRxtshift.toNat ≤ tcpMaxrxtshift) :
    Bounded tcb := by
  refine ⟨hshift, fun hclosed => ?_⟩
  rw [Receiving, hclosed] at hstate
  simp at hstate

theorem ackStep_bounded (hstate : Receiving tcb') (h : AckStep In tcb log tcb') (hb : Bounded tcb) :
    Bounded tcb' ∧ ∀ event ∈ log, InTable event := by
  cases h with
  | options env seg hseg =>
      refine ⟨.of_receiving hstate ?_, by simp⟩
      obtain ⟨_, _, _, _, heq⟩ := processWindowOption_eq env seg tcb
      rw [heq]
      exact hb.shift
  | ack seg hseg hack => exact ⟨.of_receiving hstate hb.shift, by simp⟩
  | window seg hseg hack => exact ⟨.of_receiving hstate hb.shift, by simp⟩
  | sample rttUs =>
      refine ⟨.of_receiving hstate ?_, by simp⟩
      obtain ⟨_, _, _, heq⟩ := utcpXmitTimer_eq tcb rttUs
      rw [heq]
      exact hb.shift
  | rearm env =>
      obtain ⟨hshift, hlog⟩ := rearmRexmt_bounded env hb
      exact ⟨.of_receiving hstate hshift, hlog⟩
  | congestion => exact ⟨.of_receiving hstate hb.shift, by simp⟩
  | retransmit reading => exact ⟨hb, retransmit_inTable _ _ _⟩

theorem timerStep_bounded (h : TimerStep Increases tcb log tcb') (hb : Bounded tcb) :
    Bounded tcb' ∧ ∀ event ∈ log, InTable event := by
  cases h with
  | clock => exact ⟨⟨hb.shift, hb.closed⟩, by simp⟩
  | countDown timer hticks =>
      refine ⟨⟨hb.shift, fun hclosed => ?_⟩, by simp⟩
      have hoff := hb.closed hclosed
      by_cases htimer : timer = .rexmt
      · rw [htimer, hoff] at hticks
        exact absurd hticks (by decide)
      · simp only [setTimer]
        rw [if_neg (Ne.symm htimer)]
        exact hoff
  | rexmt env recover hticks hshift =>
      obtain ⟨tTimer, ssthresh, heq⟩ := expireRexmt_eq env tcb recover
      refine ⟨⟨?_, fun hclosed => ?_⟩, fun event hevent => ?_⟩
      · rw [heq]
        exact hshift.next
      · rw [heq] at hclosed
        rw [hb.closed hclosed] at hticks
        exact absurd hticks (by decide)
      · rcases List.mem_cons.mp hevent with rfl | hevent
        · trivial
        · rw [List.mem_singleton.mp hevent]
          exact hshift.next
  | other timer hticks htimer =>
      refine ⟨⟨hb.shift, fun hclosed => ?_⟩, by simp [InTable]⟩
      simp only [setTimer]
      rw [if_neg htimer.symm]
      exact hb.closed hclosed

theorem openStep_bounded (h : OpenStep In tcb log tcb') (hb : Bounded tcb) :
    Bounded tcb' ∧ ∀ event ∈ log, InTable event := by
  cases h with
  | connect ip port hstate => exact ⟨⟨hb.shift, by simp⟩, by simp⟩
  | syn env seg peer hseg hstate hflag =>
      refine ⟨⟨?_, by simp [acceptSyn]⟩, by simp⟩
      obtain ⟨_, _, _, _, heq⟩ := processWindowOption_eq env seg tcb
      rw [acceptSyn, heq]
      exact hb.shift
  | synAck env seg hseg hstate hawaited =>
      exact ⟨⟨Nat.zero_le _, by simp [acceptSynAck]⟩, by simp⟩
  | finalAck seg hseg hstate hcompletes =>
      exact ⟨⟨Nat.zero_le _, by simp [acceptFinalAck]⟩, by simp⟩

theorem tcbStep_bounded (h : TcbStep In Increases tcb log tcb') (hb : Bounded tcb) :
    Bounded tcb' ∧ ∀ event ∈ log, InTable event := by
  cases h with
  | output h => exact outputStep_bounded h hb
  | receive _ h => exact receiveStep_bounded h hb
  | ack hstate h =>
      have hstep : TcbStep In Increases tcb log tcb' := .ack hstate h
      exact ackStep_bounded (tcbStep_receiving hstep hstate) h hb
  | timer h => exact timerStep_bounded h hb
  | opening h => exact openStep_bounded h hb

theorem endpointStep_bounded {e e' : Endpoint} (h : EndpointStep In Increases e log e')
    (hb : Bounded e.tcb) : Bounded e'.tcb ∧ ∀ event ∈ log, InTable event := by
  cases h with
  | tcb h => exact tcbStep_bounded h hb
  | call bytes hstate hpending => exact ⟨hb, by simp⟩
  | write n hstate hroom hn =>
      have hwritten : Bounded (writeChunk e.tcb (e.pending.take n)) := by
        rw [writeChunk]
        exact ⟨hb.shift, hb.closed⟩
      exact ⟨hwritten, by simp⟩
  | read n hstate hn =>
      have htaken : Bounded (takeBytes e.tcb n) := by
        obtain ⟨_, _, heq⟩ := takeBytes_eq e.tcb n
        rw [heq]
        exact ⟨hb.shift, hb.closed⟩
      exact ⟨htaken, by simp⟩

/-- A tick that lets the retransmission timer expire finds its counter below the
end of the table. -/
def ExpiresInTable (e : Endpoint) : Section → Prop
  | .slowtimo _ => e.tcb.tTimer .rexmt = 1 → Increases e.tcb.tRxtshift
  | _ => True

theorem run_bounded {e e' : Endpoint} {s : Section} (hb : Bounded e.tcb)
    (hok : ExpiresInTable e s) (h : e.run s = some (e', log)) :
    Bounded e'.tcb ∧ ∀ event ∈ log, InTable event := by
  have htrace : Trace (EndpointStep (fun _ => True) Increases) e log e' := by
    refine run_trace (fun _ _ _ _ => trivial) ?_ h
    rintro envs rfl
    exact hok
  exact htrace.events (I := fun e => Bounded e.tcb) (fun _ _ _ => endpointStep_bounded) hb

theorem bounded_start {e : Endpoint} (h : e.Fresh) : Bounded e.tcb := by
  obtain ⟨ip, port, rfl | rfl⟩ := h
  · exact ⟨Nat.zero_le _, fun _ => rfl⟩
  · exact ⟨Nat.zero_le _, fun _ => rfl⟩

theorem reached_bounded {e : Endpoint} (h : ReachedBy endpoints ExpiresInTable e) :
    Bounded e.tcb ∧ ∀ event ∈ e.history, InTable event := by
  apply h.invariant
  · intro e hfresh
    refine ⟨bounded_start hfresh, ?_⟩
    obtain ⟨ip, port, rfl | rfl⟩ := hfresh <;> simp [Endpoint.start]
  · rintro e s e' - ⟨hb, hhistory⟩ hok ⟨log, hrun⟩
    obtain ⟨hb', hlog⟩ := run_bounded hb hok hrun
    obtain ⟨out, -, hran⟩ := run_cases hrun
    refine ⟨hb', fun event hevent => ?_⟩
    rw [hran.history_eq] at hevent
    rcases List.mem_append.mp hevent with hevent | hevent
    · exact hhistory event hevent
    · exact hlog event hevent

theorem slowtimo_beyond {envs : Timer → Env} {out : Out} (hstate : tcb.state ≠ .closed)
    (hexpires : tcb.tTimer .rexmt = 1) (h : utcpSlowtimo envs tcb = some out) :
    .backoff (tcb.tRxtshift + 1).toNat ∈ out.log := by
  rw [utcpSlowtimo, if_neg hstate] at h
  obtain ⟨first, hfirst, h⟩ := Option.bind_eq_some_iff.mp h
  obtain ⟨rest, hrest, h⟩ := Option.bind_eq_some_iff.mp h
  cases h
  obtain ⟨recover, htick⟩ := @tickTimer_rexmt (ticked tcb) (envs .rexmt) hexpires
  rw [show tickTimer (envs .rexmt) (ticked tcb) .rexmt = some first from hfirst] at htick
  cases htick
  exact List.mem_append_left _ (by simp [ticked])

/-- As long as the timer expires only with its counter below the end of the table,
every read of `tcp_backoff` lies in the table; and the first expiry that does not
reads past it. -/
theorem backoff_in_table {e : Endpoint} (hreach : ReachedBy endpoints ExpiresInTable e) :
    (∀ event ∈ e.history, InTable event) ∧
      ∀ s e' log, e.run s = some (e', log) →
        ((∀ event ∈ log, InTable event) ↔ ExpiresInTable e s) := by
  obtain ⟨hb, hhistory⟩ := reached_bounded hreach
  refine ⟨hhistory, fun s e' log hrun => ⟨fun hlog => ?_, fun hok => (run_bounded hb hok hrun).2⟩⟩
  cases s with
  | slowtimo envs =>
      intro hexpires
      obtain ⟨out, hout, hend⟩ := Option.map_eq_some_iff.mp hrun
      cases hend
      have hstate : e.tcb.state ≠ .closed := by
        intro hclosed
        rw [hb.closed hclosed] at hexpires
        exact absurd hexpires (by decide)
      have hread : (e.tcb.tRxtshift + 1).toNat ≤ tcpMaxrxtshift :=
        hlog _ (slowtimo_beyond hstate hexpires hout)
      have hshift := hb.shift
      have hmax : tcpMaxrxtshift = 12 := rfl
      change e.tcb.tRxtshift.toNat < tcpMaxrxtshift
      bv_omega
  | _ => trivial

/-- A client whose SYN is not answered, with nothing but the retransmission timer
running. -/
structure Waiting (tcb : Tcb) (tRxtshift : Nat) : Prop where
  state : tcb.state = .synSent
  acknow : tcb.tfAcknow = false
  outstanding : tcb.sndUna ≠ tcb.sndMax
  rxtcur : tcb.tRxtcur = tcptvSrttdflt
  shift : tcb.tRxtshift = BitVec.ofNat 8 tRxtshift
  running : 0 < (tcb.tTimer .rexmt).toNat
  small : (tcb.tTimer .rexmt).toNat ≤ 6400
  others : ∀ timer ≠ .rexmt, tcb.tTimer timer = 0

theorem tickTimers_idle {envs : Timer → Env} (timers : List Timer)
    (hoff : ∀ timer ∈ timers, tcb.tTimer timer = 0) :
    tickTimers envs timers tcb = some ⟨tcb, []⟩ := by
  induction timers with
  | nil => rfl
  | cons timer timers ih =>
      have hidle : tickTimer (envs timer) tcb timer = some ⟨tcb, []⟩ := by
        rw [tickTimer, hoff timer List.mem_cons_self]
        rfl
      rw [tickTimers, hidle, Option.bind_eq_bind, Option.bind_some,
        ih fun t ht => hoff t (List.mem_cons_of_mem _ ht)]
      rfl

theorem slowtimo_rexmt {envs : Timer → Env} {out : Out} (hstate : tcb.state ≠ .closed)
    (hrexmt : tickTimer (envs .rexmt) (ticked tcb) .rexmt = some out)
    (hothers : ∀ timer ≠ .rexmt, out.tcb.tTimer timer = 0) :
    utcpSlowtimo envs tcb = some out := by
  have hrest : tickTimers envs [.persist, .keep, .twoMsl, .delack] out.tcb = some ⟨out.tcb, []⟩ := by
    apply tickTimers_idle
    intro timer htimer
    apply hothers
    rintro rfl
    simp at htimer
  rw [utcpSlowtimo, if_neg hstate]
  change tickTimers envs (.rexmt :: [.persist, .keep, .twoMsl, .delack]) (ticked tcb) = some out
  rw [tickTimers, hrexmt, Option.bind_eq_bind, Option.bind_some, hrest]
  exact congrArg (fun log => some (Out.mk out.tcb log)) (List.append_nil out.log)

theorem expireRexmt_rexmt (env : Env) (tcb : Tcb) (recover : U32) :
    (expireRexmt env tcb recover).tTimer .rexmt =
      newTimer env { tcb with tRxtshift := tcb.tRxtshift + 1 } := by
  rw [expireRexmt, ccTimeout]
  rfl

theorem expireRexmt_other (env : Env) (tcb : Tcb) (recover : U32) {timer : Timer}
    (htimer : timer ≠ .rexmt) :
    (expireRexmt env tcb recover).tTimer timer = tcb.tTimer timer := by
  rw [expireRexmt, ccTimeout]
  simp [goBack, setTimer, htimer]

theorem newTimer_running (env : Env) (hpos : tcb.tRxtcur > 0) :
    newTimer env tcb = backedOff tcb.tRxtcur (tcpBackoff env tcb.tRxtshift.toNat) := by
  rw [newTimer, if_pos hpos]

theorem tcpBackoff_eq (env : Env) {index : Nat} (hindex : index < tcpBackoffTable.length) :
    tcpBackoff env index = tcpBackoffTable.getD index 0 := by
  rw [tcpBackoff, List.getD_eq_getElem?_getD, List.getD_eq_getElem?_getD,
    List.getElem?_eq_getElem hindex]
  rfl

theorem backedOff_table : ∀ tRxtshift < tcpMaxrxtshift,
    let ticks :=
      backedOff tcptvSrttdflt (tcpBackoffTable.getD (BitVec.ofNat 8 tRxtshift + 1).toNat 0)
    0 < ticks.toNat ∧ ticks.toNat ≤ 6400 := by
  decide

variable {tRxtshift : Nat}

theorem Waiting.notClosed (h : Waiting tcb tRxtshift) : tcb.state ≠ .closed := by
  rw [h.state]
  decide

theorem Waiting.countDown (h : Waiting tcb tRxtshift) (envs : Timer → Env)
    (hticks : 1 < (tcb.tTimer .rexmt).toNat) :
    ∃ out, utcpSlowtimo envs tcb = some out ∧ Waiting out.tcb tRxtshift ∧
      (out.tcb.tTimer .rexmt).toNat + 1 = (tcb.tTimer .rexmt).toNat := by
  have hsmall := h.small
  let left : U16 := tcb.tTimer .rexmt - 1
  have hleft : left.toNat + 1 = (tcb.tTimer .rexmt).toNat := by
    change (tcb.tTimer .rexmt - 1).toNat + 1 = _
    bv_omega
  have hpos : 0 < ((ticked tcb).tTimer .rexmt).toInt := by
    change 0 < (tcb.tTimer .rexmt).toInt
    rw [BitVec.toInt_eq_toNat_of_lt (by omega)]
    omega
  have hne : left ≠ 0 := by
    intro hzero
    rw [hzero] at hleft
    simp at hleft
    omega
  have hrexmt : tickTimer (envs .rexmt) (ticked tcb) .rexmt =
      some ⟨setTimer (ticked tcb) .rexmt left, []⟩ := by
    rw [tickTimer, if_pos hpos]
    exact if_neg hne
  refine ⟨_, slowtimo_rexmt h.notClosed hrexmt ?_, ⟨h.state, h.acknow, h.outstanding, h.rxtcur,
    h.shift, ?_, ?_, ?_⟩, hleft⟩
  · intro timer htimer
    exact (if_neg htimer).trans (h.others timer htimer)
  · change 0 < left.toNat
    omega
  · change left.toNat ≤ 6400
    omega
  · intro timer htimer
    exact (if_neg htimer).trans (h.others timer htimer)

theorem Waiting.expires (h : Waiting tcb tRxtshift) (envs : Timer → Env)
    (hticks : (tcb.tTimer .rexmt).toNat = 1) :
    ∃ recover, utcpSlowtimo envs tcb =
      some ⟨expireRexmt (envs .rexmt) (ticked tcb) recover,
        [.expired .rexmt, .backoff (tcb.tRxtshift + 1).toNat]⟩ := by
  have hexpires : (ticked tcb).tTimer .rexmt = 1 := BitVec.eq_of_toNat_eq hticks
  obtain ⟨recover, htick⟩ := tickTimer_rexmt (envs .rexmt) hexpires
  obtain ⟨tTimer, ssthresh, heq⟩ := expireRexmt_eq (envs .rexmt) (ticked tcb) recover
  have hsilent : utcpOutput (envs .rexmt).output (expireRexmt (envs .rexmt) (ticked tcb) recover) =
      ⟨expireRexmt (envs .rexmt) (ticked tcb) recover, []⟩ := by
    apply utcpOutput_outstanding
    · rw [heq]
      exact fun hestablished => absurd (h.state.symm.trans hestablished) (by decide)
    · rw [heq]
      exact h.acknow
    · rw [heq]
      exact h.outstanding
  rw [hsilent] at htick
  refine ⟨recover, slowtimo_rexmt h.notClosed htick ?_⟩
  intro timer htimer
  rw [expireRexmt_other _ _ _ htimer]
  exact h.others timer htimer

theorem Waiting.backOff (h : Waiting tcb tRxtshift) (hlt : tRxtshift < tcpMaxrxtshift) (env : Env)
    (recover : U32) : Waiting (expireRexmt env (ticked tcb) recover) (tRxtshift + 1) := by
  obtain ⟨_, ssthresh, heq⟩ := expireRexmt_eq env (ticked tcb) recover
  have hindex : (BitVec.ofNat 8 tRxtshift + 1).toNat < tcpBackoffTable.length := by
    have hlength : tcpBackoffTable.length = 13 := rfl
    have hmax : tcpMaxrxtshift = 12 := rfl
    bv_omega
  have hnew : (expireRexmt env (ticked tcb) recover).tTimer .rexmt =
      backedOff tcptvSrttdflt (tcpBackoffTable.getD (BitVec.ofNat 8 tRxtshift + 1).toNat 0) := by
    rw [expireRexmt_rexmt, newTimer_running]
    · dsimp only [ticked]
      rw [h.rxtcur, h.shift, tcpBackoff_eq env hindex]
    · dsimp only [ticked]
      rw [h.rxtcur]
      decide
  obtain ⟨hpos, hsmall⟩ := backedOff_table tRxtshift hlt
  refine ⟨?_, ?_, ?_, ?_, ?_, ?_, ?_, ?_⟩
  · rw [heq]
    exact h.state
  · rw [heq]
    exact h.acknow
  · rw [heq]
    exact h.outstanding
  · rw [heq]
    exact h.rxtcur
  · rw [heq]
    dsimp only [ticked]
    rw [h.shift]
    bv_omega
  · rw [hnew]
    exact hpos
  · rw [hnew]
    exact hsmall
  · intro timer htimer
    rw [expireRexmt_other _ _ _ htimer]
    exact h.others timer htimer

theorem reached_tick {e : Endpoint} {envs : Timer → Env} {out : Out}
    (hreach : ReachedBy endpoints ExpiresInTable e) (hok : ExpiresInTable e (.slowtimo envs))
    (hout : utcpSlowtimo envs e.tcb = some out) :
    ReachedBy endpoints ExpiresInTable (e.finish out).1 := by
  have hrun : e.run (.slowtimo envs) = some (e.finish out) := by
    rw [Endpoint.run, hout, Option.map_some]
  exact hreach.step hok ⟨_, hrun⟩

theorem Waiting.untilExpiry {e : Endpoint} (hreach : ReachedBy endpoints ExpiresInTable e)
    (ticks : Nat) :
    Waiting e.tcb tRxtshift → (e.tcb.tTimer .rexmt).toNat = ticks + 1 →
      ∃ e', ReachedBy endpoints ExpiresInTable e' ∧ e.history <+: e'.history ∧
        Waiting e'.tcb tRxtshift ∧ (e'.tcb.tTimer .rexmt).toNat = 1 := by
  induction ticks generalizing e with
  | zero => exact fun h hticks => ⟨e, hreach, List.prefix_rfl, h, hticks⟩
  | succ ticks ih =>
      intro h hticks
      obtain ⟨out, hout, hnext, hleft⟩ := h.countDown (fun _ => .still 0) (by omega)
      have hticks' : (out.tcb.tTimer .rexmt).toNat = ticks + 1 := by omega
      have hok : ExpiresInTable e (.slowtimo fun _ => .still 0) := by
        intro hexpires
        rw [hexpires] at hticks
        simp at hticks
      obtain ⟨e', hreach', hhistory, hrest⟩ := ih (reached_tick hreach hok hout) hnext hticks'
      exact ⟨e', hreach', (List.prefix_append _ _).trans hhistory, hrest⟩

theorem Waiting.reaches {e : Endpoint} (hreach : ReachedBy endpoints ExpiresInTable e)
    (h : Waiting e.tcb 0) :
    ∀ k ≤ tcpMaxrxtshift, ∃ e', ReachedBy endpoints ExpiresInTable e' ∧
      (∀ j < k, .backoff (j + 1) ∈ e'.history) ∧ Waiting e'.tcb k ∧
      (e'.tcb.tTimer .rexmt).toNat = 1 := by
  intro k
  induction k with
  | zero =>
      intro _
      have hrunning := h.running
      obtain ⟨e', hreach', -, hexpiring⟩ :=
        h.untilExpiry hreach ((e.tcb.tTimer .rexmt).toNat - 1) (by omega)
      exact ⟨e', hreach', by simp, hexpiring⟩
  | succ k ih =>
      intro hk
      obtain ⟨e₁, hreach₁, hreads, hexpiring, hticks⟩ := ih (by omega)
      obtain ⟨recover, hout⟩ := hexpiring.expires (fun _ => .still 0) hticks
      have hshift : e₁.tcb.tRxtshift.toNat = k := by
        have hmax : tcpMaxrxtshift = 12 := rfl
        rw [hexpiring.shift, BitVec.toNat_ofNat, Nat.mod_eq_of_lt (by omega)]
      have hok : ExpiresInTable e₁ (.slowtimo fun _ => .still 0) := fun _ => by
        rw [Increases, hshift]
        exact hk
      have hnext := hexpiring.backOff hk (.still 0) recover
      have hrunning := hnext.running
      obtain ⟨e', hreach', hhistory, hexpiring'⟩ :=
        hnext.untilExpiry (reached_tick hreach₁ hok hout) _ (Nat.sub_add_cancel hrunning).symm
      refine ⟨e', hreach', fun j hj => hhistory.subset ?_, hexpiring'⟩
      rcases Nat.lt_succ_iff_lt_or_eq.mp hj with hj | rfl
      · exact List.mem_append_left _ (hreads j hj)
      · apply List.mem_append_right
        have hread : (e₁.tcb.tRxtshift + 1).toNat = j + 1 := by
          have hmax : tcpMaxrxtshift = 12 := rfl
          bv_omega
        rw [hread]
        simp

/-- A client whose SYN is lost. -/
def unanswered : Endpoint :=
  ((Endpoint.start (utcpBind utcpSocket 1 10)).finish
    (utcpConnect (.still 0) (utcpBind utcpSocket 1 10) 2 20)).1

/-- After twelve expiries the counter is at the end of the table, and a thirteenth
is a tick away. -/
theorem unanswered_reaches :
    ∃ e, ReachedBy endpoints ExpiresInTable e ∧
      (∀ j < tcpMaxrxtshift, .backoff (j + 1) ∈ e.history) ∧ Waiting e.tcb tcpMaxrxtshift ∧
      (e.tcb.tTimer .rexmt).toNat = 1 := by
  have hreach : ReachedBy endpoints ExpiresInTable unanswered :=
    .step (.init ⟨1, 10, .inl rfl⟩) trivial (a := .connect (.still 0) 2 20) ⟨_, rfl⟩
  have hwaiting : Waiting unanswered.tcb 0 := by
    refine ⟨by decide, by decide, by decide, by decide, by decide, by decide, by decide, ?_⟩
    intro timer htimer
    cases timer with
    | rexmt => exact absurd rfl htimer
    | _ => decide
  exact hwaiting.reaches hreach tcpMaxrxtshift le_rfl

/-- A peer that never answers: every entry of the table but the first has been read,
and the next tick reads past the end. -/
theorem backoff_in_table_unanswered :
    ∃ e, (∀ j < tcpMaxrxtshift, .backoff (j + 1) ∈ e.history) ∧
      ¬ ExpiresInTable e (.slowtimo fun _ => .still 0) ∧
      (∃ e' log, e.run (.slowtimo fun _ => .still 0) = some (e', log) ∧
        .backoff (tcpMaxrxtshift + 1) ∈ log) ∧
      (∀ event ∈ e.history, InTable event) ∧
        ∀ s e' log, e.run s = some (e', log) →
          ((∀ event ∈ log, InTable event) ↔ ExpiresInTable e s) := by
  obtain ⟨e, hreach, hreads, hexpiring, hticks⟩ := unanswered_reaches
  obtain ⟨recover, hout⟩ := hexpiring.expires (fun _ => .still 0) hticks
  refine ⟨e, hreads, fun hok => ?_, ⟨_, _, congrArg (Option.map e.finish) hout, ?_⟩,
    backoff_in_table hreach⟩
  · have hlt : e.tcb.tRxtshift.toNat < tcpMaxrxtshift := hok (BitVec.eq_of_toNat_eq hticks)
    rw [hexpiring.shift] at hlt
    exact absurd hlt (by decide)
  · rw [hexpiring.shift]
    exact List.mem_cons_of_mem _ List.mem_cons_self

end Utcp.Backoff
