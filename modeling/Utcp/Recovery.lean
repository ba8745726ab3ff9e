import Utcp.Divisions
import Utcp.LongRuns

/-!
The comparisons of `new_reno.c` against positions in sequence space that never wrap.
-/

namespace Utcp.Recovery

open SerialNumbers
open Traces
open TransitionSystems
open Utcp.Tcp
open Utcp.Utils
open Utcp.Output
open Utcp.CongestionControl
open Utcp.Timers
open Utcp.Input
open Utcp.Api
open Utcp.Steps
open Utcp.Sections
open Utcp.SectionCases
open Utcp.Sender
open Utcp.Lifecycle
open Utcp.WindowGrowth
open Utcp.Divisions
open Utcp.Stalls
open Utcp.LongRuns

variable {tcb tcb' : Tcb} {log : List Event} {e e' : Endpoint} {s : Section} {env : Env}
  {seg : TcpSegment} {out : Out}

/-- The segment counts as the third duplicate ACK in a row. -/
structure ThirdDuplicate (tcb : Tcb) (seg : TcpSegment) : Prop where
  notValid : validAck tcb seg.hdr.thAck = false
  same : seg.hdr.thAck = tcb.sndUna
  notLarger : ¬ getScaledWin tcb seg.hdr > tcb.sndWnd
  bare : payload seg = []
  flight : tcb.sndUna ≠ tcb.sndMax
  second : tcb.tDupacks = 2

/-- What a segment does to `recover` and to recovery under `new_reno`. -/
inductive Reacts (tcb : Tcb) (seg : TcpSegment) (tcb' : Tcb) : Prop
  | acked (hvalid : validAck tcb seg.hdr.thAck = true) (huna : tcb'.sndUna = seg.hdr.thAck)
      (hrecover : tcb'.recover = tcb.recover)
      (hstate : tcb'.caState = .recovery ↔
        tcb.caState = .recovery ∧ seqGeq seg.hdr.thAck tcb.recover = false)
  | entered (hthird : ThirdDuplicate tcb seg) (hbeyond : seqGt tcb.sndUna tcb.recover = true)
      (huna : tcb'.sndUna = tcb.sndUna) (hrecover : tcb'.recover = tcb.sndMax)
      (hstate : tcb'.caState = .recovery)
  | kept (hvalid : validAck tcb seg.hdr.thAck = false)
      (hbehind : ThirdDuplicate tcb seg → seqGt tcb.sndUna tcb.recover = false)
      (huna : tcb'.sndUna = tcb.sndUna) (hrecover : tcb'.recover = tcb.recover)
      (hstate : tcb'.caState = tcb.caState)

theorem newReno_ack_reacts (hops : tcb.ccOps = .newReno) {acked rttUs : U32}
    (h : congControl env tcb (.ack acked rttUs) = some out) :
    out.tcb.sndUna = tcb.sndUna ∧ out.tcb.recover = tcb.recover ∧
      (out.tcb.caState = .recovery ↔
        tcb.caState = .recovery ∧ seqGeq tcb.sndUna tcb.recover = false) := by
  rw [congControl_newReno hops] at h
  simp only [newRenoCongControl] at h
  split at h
  · rename_i hrecovery
    cases h
    rw [recoveryAck]
    split
    · rename_i hreached
      exact ⟨rfl, rfl, by simp [hreached]⟩
    · rename_i hpartial
      exact ⟨rfl, rfl, by simp [hrecovery, hpartial]⟩
  · rename_i hother
    obtain ⟨tcb', haimd, hout⟩ := Option.bind_eq_some_iff.mp h
    cases hout
    rw [eq_of_ccAimd haimd]
    refine ⟨rfl, rfl, ?_⟩
    have hkept : afterAimd tcb.caState ≠ .recovery := by
      rw [afterAimd]
      split
      · decide
      · exact hother
    exact iff_of_false hkept fun h => hother h.1

theorem newReno_dupAck_reacts (hops : tcb.ccOps = .newReno) {totalDups : U32}
    (h : congControl env tcb (.dupAck totalDups) = some out) :
    out.tcb.sndUna = tcb.sndUna ∧
      (totalDups = 3 → seqGt tcb.sndUna tcb.recover = true →
        out.tcb.recover = tcb.sndMax ∧ out.tcb.caState = .recovery) ∧
      (¬ (totalDups = 3 ∧ seqGt tcb.sndUna tcb.recover = true) →
        out.tcb.recover = tcb.recover ∧ out.tcb.caState = tcb.caState) := by
  rw [congControl_newReno hops] at h
  obtain rfl : recoveryDupAck env tcb totalDups = out := Option.some.inj h
  rw [recoveryDupAck]
  split
  · rename_i hthird
    split
    · rename_i hbeyond
      exact ⟨rfl, fun _ _ => ⟨rfl, rfl⟩, fun hnot => absurd ⟨hthird, hbeyond⟩ hnot⟩
    · rename_i hbehind
      exact ⟨rfl, fun _ hbeyond => absurd hbeyond hbehind, fun _ => ⟨rfl, rfl⟩⟩
  · rename_i hother
    split
    · have hsame := utcpOutput_sameControl env.burst { tcb with cwnd := tcb.cwnd + mss }
      exact ⟨hsame.sndUna, fun hthird => absurd hthird hother, fun _ => ⟨hsame.recover, hsame.caState⟩⟩
    · exact ⟨rfl, fun hthird => absurd hthird hother, fun _ => ⟨rfl, rfl⟩⟩

theorem counted_three (dups : U8) :
    (if dups < 255 then dups + 1 else dups).setWidth 32 = (3 : U32) ↔ dups = 2 := by
  revert dups
  decide

theorem handleAck_reacts (hops : tcb.ccOps = .newReno) (h : handleAck env tcb seg = some out) :
    Reacts tcb seg out.tcb := by
  cases handleAck_cases h with
  | acked cc hvalid hcc =>
      obtain ⟨_, _, _, _, _, _, _, heq⟩ := beforeAckEvent_eq env tcb seg
      obtain ⟨huna, hrecover, hstate⟩ := newReno_ack_reacts (by rw [heq]; exact hops) hcc
      rw [heq] at huna hrecover hstate
      exact .acked hvalid huna hrecover hstate
  | window hvalid hsame hlarger =>
      exact .kept hvalid (fun hthird => absurd hlarger hthird.notLarger) rfl rfl rfl
  | duplicate _ dupacks hvalid hsame hsmaller hbare hflight hdupacks hcc =>
      let counted : Tcb := { tcb with sndWnd := getScaledWin tcb seg.hdr, tDupacks := dupacks }
      obtain ⟨huna, hthree, hother⟩ := @newReno_dupAck_reacts counted env out hops _ hcc
      rw [hdupacks, counted_three] at hthree hother
      by_cases hentered : tcb.tDupacks = 2 ∧ seqGt tcb.sndUna tcb.recover = true
      · obtain ⟨hrecover, hstate⟩ := hthree hentered.1 hentered.2
        exact .entered ⟨hvalid, hsame, hsmaller, hbare, hflight, hentered.1⟩ hentered.2 huna hrecover
          hstate
      · obtain ⟨hrecover, hstate⟩ := hother hentered
        refine .kept hvalid (fun hthird => ?_) huna hrecover hstate
        rw [← Bool.not_eq_true]
        exact fun hbeyond => hentered ⟨hthird.second, hbeyond⟩
  | ignored hvalid hnot =>
      exact .kept hvalid (fun hthird => absurd ⟨hthird.bare, hthird.flight⟩ (hnot hthird.same)) rfl
        rfl rfl

theorem received_reacts (hops : tcb.ccOps = .newReno)
    (h : handleReceivedData env tcb seg = some out) :
    Reacts (processWindowOption env seg tcb) seg out.tcb := by
  obtain ⟨acked, hacked, hout⟩ := Option.bind_eq_some_iff.mp h
  cases hout
  have hops' : (processWindowOption env seg tcb).ccOps = .newReno := by
    obtain ⟨_, _, _, _, heq⟩ := processWindowOption_eq env seg tcb
    rw [heq]
    exact hops
  have hdata := handleData_sameControl env acked.tcb seg
  generalize handleData env acked.tcb seg = placed at hdata ⊢
  cases handleAck_reacts hops' hacked with
  | acked hvalid huna hrecover hstate =>
      exact .acked hvalid (hdata.sndUna.trans huna) (hdata.recover.trans hrecover)
        (by rw [hdata.caState]; exact hstate)
  | entered hthird hbeyond huna hrecover hstate =>
      exact .entered hthird hbeyond (hdata.sndUna.trans huna) (hdata.recover.trans hrecover)
        (hdata.caState.trans hstate)
  | kept hvalid hbehind huna hrecover hstate =>
      exact .kept hvalid hbehind (hdata.sndUna.trans huna) (hdata.recover.trans hrecover)
        (hdata.caState.trans hstate)

/-- A stretch of code that records nothing. -/
def Unrecorded (tcb : Tcb) (log : List Event) (tcb' : Tcb) : Prop :=
  SameControl tcb tcb' ∧ .expired .rexmt ∉ log

theorem unrecorded_composes : Composes Unrecorded := by
  refine ⟨fun tcb => ⟨.refl tcb, by simp⟩, ?_⟩
  rintro a b c log log' ⟨hfirst, hlog⟩ ⟨hrest, hlog'⟩
  refine ⟨hfirst.trans hrest, fun hmem => ?_⟩
  rcases List.mem_append.mp hmem with hmem | hmem
  · exact hlog hmem
  · exact hlog' hmem

theorem output_unrecorded (readings : Nat → Reading) (tcb : Tcb) :
    Unrecorded tcb (utcpOutput readings tcb).log (utcpOutput readings tcb).tcb :=
  ⟨utcpOutput_sameControl readings tcb, Lifecycle.utcpOutput_silent readings tcb .rexmt⟩

theorem tick_unrecorded {timer : Timer} (hother : timer ≠ .rexmt)
    (h : TickCases env tcb timer out) : Unrecorded tcb out.log out.tcb := by
  have hset : ∀ ticks : U16, SameControl tcb (setTimer tcb timer ticks) :=
    fun _ => ⟨rfl, rfl, rfl, rfl, rfl⟩
  cases h with
  | idle => exact unrecorded_composes.nil tcb
  | countDown => exact ⟨hset _, List.not_mem_nil⟩
  | rexmt => exact absurd rfl hother
  | delack =>
      have hexpired : Event.expired .rexmt ∉ [.expired .delack] := by simp
      have hacknow : Unrecorded tcb [.expired .delack]
          { setTimer tcb .delack 0 with tfDelack := false, tfAcknow := true } :=
        ⟨⟨rfl, rfl, rfl, rfl, rfl⟩, hexpired⟩
      exact unrecorded_composes.append hacknow (output_unrecorded env.output _)
  | other timer hticks hrexmt hdelack => exact ⟨hset 0, by simpa using Ne.symm hrexmt⟩

theorem expires_records (hops : tcb.ccOps = .newReno) {recover : U32}
    (h : congControl env (goBack env (setTimer tcb .rexmt (tcb.tTimer .rexmt - 1)))
      (.timeout (flightSize tcb)) = some ⟨expireRexmt env tcb recover, []⟩) :
    recover = tcb.sndMax := by
  have hops' : (goBack env (setTimer tcb .rexmt (tcb.tTimer .rexmt - 1))).ccOps = .newReno := hops
  rw [congControl_newReno hops', newRenoCongControl] at h
  obtain ⟨_, _, heq⟩ := expireRexmt_eq env tcb recover
  have hrecover := congrArg (fun out : Out => out.tcb.recover) (Option.some.inj h)
  simp only at hrecover
  rw [heq] at hrecover
  obtain ⟨_, hexpired⟩ := ccTimeout_eq { goBack env (setTimer tcb .rexmt (tcb.tTimer .rexmt - 1)) with
    recover := (goBack env (setTimer tcb .rexmt (tcb.tTimer .rexmt - 1))).sndMax } (flightSize tcb)
  rw [hexpired] at hrecover
  exact hrecover.symm

/-- What a tick of the clock does to `recover` and to recovery. -/
inductive Clocked (tcb : Tcb) (log : List Event) (tcb' : Tcb) : Prop
  | quiet (h : Unrecorded tcb log tcb')
  | expired (hlog : .expired .rexmt ∈ log) (huna : tcb'.sndUna = tcb.sndUna)
      (hrecover : tcb'.recover = tcb.sndMax) (hstate : tcb'.caState = .loss)

theorem Clocked.append {tcb'' : Tcb} {log' : List Event} (h : Clocked tcb log tcb')
    (hrest : Unrecorded tcb' log' tcb'') : Clocked tcb (log ++ log') tcb'' := by
  cases h with
  | quiet h => exact .quiet (unrecorded_composes.append h hrest)
  | expired hlog huna hrecover hstate =>
      exact .expired (List.mem_append_left _ hlog) (hrest.1.sndUna.trans huna)
        (hrest.1.recover.trans hrecover) (hrest.1.caState.trans hstate)

theorem rexmt_clocked (hops : tcb.ccOps = .newReno) (h : TickCases env tcb .rexmt out) :
    Clocked tcb out.log out.tcb := by
  cases h with
  | idle => exact .quiet (unrecorded_composes.nil tcb)
  | countDown => exact .quiet ⟨⟨rfl, rfl, rfl, rfl, rfl⟩, List.not_mem_nil⟩
  | rexmt recover hticks hcc =>
      obtain rfl := expires_records hops hcc
      obtain ⟨_, _, heq⟩ := expireRexmt_eq env tcb tcb.sndMax
      have hexpired : Clocked tcb [.expired .rexmt, .backoff (tcb.tRxtshift + 1).toNat]
          (expireRexmt env tcb tcb.sndMax) := by
        rw [heq]
        exact .expired List.mem_cons_self rfl rfl rfl
      exact hexpired.append (output_unrecorded env.output _)
  | other _ _ hrexmt => exact absurd rfl hrexmt

theorem slowtimo_clocked {envs : Timer → Env} (hops : tcb.ccOps = .newReno)
    (h : utcpSlowtimo envs tcb = some out) : Clocked tcb out.log out.tcb := by
  unfold utcpSlowtimo at h
  split at h
  · cases h
    exact .quiet (unrecorded_composes.nil tcb)
  · have hsplit : tickTimers envs Timer.all (ticked tcb) = some out := h
    obtain ⟨first, hfirst, h⟩ := Option.bind_eq_some_iff.mp hsplit
    obtain ⟨rest, hrest, h⟩ := Option.bind_eq_some_iff.mp h
    cases h
    have hothers : Unrecorded first.tcb rest.log rest.tcb := by
      refine tickTimers_composes unrecorded_composes _ (fun timer htimer _ _ htick => ?_) hrest
      refine tick_unrecorded ?_ htick
      rintro rfl
      simp at htimer
    have hclocked : Clocked (ticked tcb) first.log first.tcb :=
      rexmt_clocked hops (tickTimer_cases hfirst)
    have hsame : Clocked (ticked tcb) (first.log ++ rest.log) rest.tcb := hclocked.append hothers
    cases hsame with
    | quiet h =>
        have hticked : SameControl tcb (ticked tcb) := ⟨rfl, rfl, rfl, rfl, rfl⟩
        exact .quiet ⟨hticked.trans h.1, h.2⟩
    | expired hlog huna hrecover hstate => exact .expired hlog huna hrecover hstate

theorem send_unrecorded (envs : Nat → Env) (tcb : Tcb) (bytes : List U8) :
    SameControl tcb (utcpSend envs tcb bytes).1.tcb := by
  have hchunk : ∀ turn tcb chunk, Unrecorded tcb
      (utcpOutput (envs turn).output (writeChunk tcb chunk)).log
      (utcpOutput (envs turn).output (writeChunk tcb chunk)).tcb := by
    intro turn tcb chunk
    have hwrite : SameControl tcb (writeChunk tcb chunk) := ⟨rfl, rfl, rfl, rfl, rfl⟩
    obtain ⟨hsame, hlog⟩ := output_unrecorded (envs turn).output (writeChunk tcb chunk)
    exact ⟨hwrite.trans hsame, hlog⟩
  exact (utcpSend_composes unrecorded_composes hchunk tcb bytes).1

theorem read_sameControl (h : ReadCases env tcb out) : SameControl tcb out.tcb := by
  have htake : ∀ n, SameControl tcb (takeBytes tcb n) := by
    intro n
    obtain ⟨_, _, heq⟩ := takeBytes_eq tcb n
    rw [heq]
    exact ⟨rfl, rfl, rfl, rfl, rfl⟩
  cases h with
  | update n =>
      exact ((htake n).trans (setAcknow_sameControl _)).trans (utcpOutput_sameControl env.output _)
  | quiet n => exact htake n

/-- An endpoint, with the positions of `snd_una` and of what `recover` recorded in a
sequence space without end. -/
structure Tracked where
  endpoint : Endpoint
  una : Nat
  recorded : Nat

/-- The handshake is over: congestion control gets INIT. -/
def Opens (tcb tcb' : Tcb) : Prop := tcb.state ≠ .established ∧ tcb'.state = .established

/-- The position of `snd_una` after a section. -/
def Tracked.unaAfter (t : Tracked) (tcb' : Tcb) : Nat :=
  t.una + (tcb'.sndUna - t.endpoint.tcb.sndUna).toNat

/-- What is recorded after a section: INIT records the start, a fast retransmit and a
timeout record all that was sent. -/
def Tracked.recordedAfter (t : Tracked) (s : Section) (tcb' : Tcb) (log : List Event) : Nat :=
  let tcb := t.endpoint.tcb
  let sent := t.unaAfter tcb' + (tcb.sndMax - tcb'.sndUna).toNat
  match s with
  | .input _ _ _ =>
      let opens := tcb.state ≠ .established ∧ tcb'.state = .established
      if tcb'.caState = .recovery ∧ (tcb.caState ≠ .recovery ∨ opens) then sent
      else if opens then 0
      else t.recorded
  | .slowtimo _ => if .expired .rexmt ∈ log then sent else t.recorded
  | _ => t.recorded

/-- Run a critical section. -/
def Tracked.next (t : Tracked) (s : Section) : Option Tracked :=
  (t.endpoint.run s).map fun result =>
    ⟨result.1, t.unaAfter result.1.tcb, t.recordedAfter s result.1.tcb result.2⟩

/-- One endpoint in any environment, with its positions. -/
def tracked : TransitionSystem Tracked Section where
  init t := t.endpoint.Fresh ∧ t.una = 0 ∧ t.recorded = 0
  step t s t' := t.next s = some t'

/-- Recovery is entered and left as the positions say. -/
structure InOrder (t : Tracked) (env : Env) (seg : TcpSegment) (t' : Tracked) : Prop where
  entry : t.endpoint.tcb.caState ≠ .recovery →
    ThirdDuplicate (processWindowOption env seg t.endpoint.tcb) seg →
      (t'.endpoint.tcb.caState = .recovery ↔ t.recorded < t.una)
  once : t.endpoint.tcb.caState ≠ .recovery → t'.endpoint.tcb.caState = .recovery →
    ThirdDuplicate (processWindowOption env seg t.endpoint.tcb) seg ∧ t.recorded < t.una ∧
      t'.recorded = t.una + (t.endpoint.tcb.sndMax - t.endpoint.tcb.sndUna).toNat
  exit : t.endpoint.tcb.caState = .recovery → validAck t.endpoint.tcb seg.hdr.thAck = true →
    (t'.endpoint.tcb.caState ≠ .recovery ↔ t.recorded ≤ t'.una)

/-- The position a segment acknowledges. -/
def Tracked.position (t : Tracked) (seg : TcpSegment) : Nat :=
  if validAck t.endpoint.tcb seg.hdr.thAck then
    t.una + (seg.hdr.thAck - t.endpoint.tcb.sndUna).toNat
  else t.una

/-- The two positions are less than half the sequence space apart. -/
def Near (t : Tracked) : Section → Prop
  | .input _ seg _ => t.position seg < t.recorded + 2 ^ 31 ∧ t.recorded < t.una + 2 ^ 31
  | _ => True

/-- The positions are those of the two fields. -/
structure Follows (t : Tracked) : Prop where
  iss : t.endpoint.tcb.iss = 0
  ccOps : t.endpoint.tcb.ccOps = .newReno
  una : t.endpoint.tcb.sndUna = BitVec.ofNat 32 t.una
  recorded : t.endpoint.tcb.state = .established →
    t.endpoint.tcb.recover = BitVec.ofNat 32 t.recorded ∧
      (t.endpoint.tcb.caState = .recovery → t.una < t.recorded)

/-- Numbers less than half the space apart compare as their positions do. -/
theorem compare_positions {p q : Nat} (hpq : p < q + 2 ^ 31) (hqp : q < p + 2 ^ 31) :
    (seqGt (BitVec.ofNat 32 p) (BitVec.ofNat 32 q) = true ↔ q < p) ∧
      (seqGeq (BitVec.ofNat 32 p) (BitVec.ofNat 32 q) = true ↔ q ≤ p) := by
  have hdiff : (BitVec.ofNat 32 p - BitVec.ofNat 32 q).toInt = (p : Int) - q := by
    rw [BitVec.toInt_eq_toNat_cond]
    simp only [BitVec.toNat_sub, BitVec.toNat_ofNat]
    split <;> omega
  rw [seqGt, seqGeq, decide_eq_true_eq, decide_eq_true_eq, hdiff]
  omega

theorem position_moves {a b : U32} {p : Nat} (h : a = BitVec.ofNat 32 p) :
    b = BitVec.ofNat 32 (p + (b - a).toNat) := by
  rw [BitVec.ofNat_add, ← h, BitVec.ofNat_toNat, BitVec.setWidth_eq, BitVec.add_comm]
  exact (BitVec.sub_add_cancel b a).symm

/-- What the positions say of `recover` and of recovery. -/
def Marks (tcb : Tcb) (una recorded : Nat) : Prop :=
  tcb.recover = BitVec.ofNat 32 recorded ∧ (tcb.caState = .recovery → una < recorded)

theorem recordedAfter_established {t : Tracked} {peer : Peer}
    (hstate : t.endpoint.tcb.state = .established) :
    t.recordedAfter (.input env seg peer) tcb' log =
      if tcb'.caState = .recovery ∧ t.endpoint.tcb.caState ≠ .recovery then
        t.unaAfter tcb' + (t.endpoint.tcb.sndMax - tcb'.sndUna).toNat
      else t.recorded := by
  have hopened : ¬ (t.endpoint.tcb.state ≠ .established ∧ tcb'.state = .established) :=
    fun h => h.1 hstate
  simp only [Tracked.recordedAfter]
  rw [if_neg hopened]
  simp only [hopened, or_false]

theorem recordedAfter_opened {t : Tracked} {peer : Peer}
    (hstate : t.endpoint.tcb.state ≠ .established) (hopened : tcb'.state = .established) :
    t.recordedAfter (.input env seg peer) tcb' log =
      if tcb'.caState = .recovery then
        t.unaAfter tcb' + (t.endpoint.tcb.sndMax - tcb'.sndUna).toNat
      else 0 := by
  have hopens : t.endpoint.tcb.state ≠ .established ∧ tcb'.state = .established :=
    ⟨hstate, hopened⟩
  simp only [Tracked.recordedAfter]
  rw [if_pos hopens]
  by_cases hin : tcb'.caState = .recovery
  · rw [if_pos ⟨hin, .inr hopens⟩, if_pos hin]
  · rw [if_neg fun h => hin h.1, if_neg hin]

theorem unaAfter_same {t : Tracked} (hsame : tcb'.sndUna = t.endpoint.tcb.sndUna) :
    t.unaAfter tcb' = t.una := by
  rw [Tracked.unaAfter, hsame, toNat_sub_self]
  rfl

theorem flight_pos {a b : U32} (hne : a ≠ b) : 0 < (b - a).toNat :=
  Nat.pos_of_ne_zero fun hzero => hne (eq_of_toNat_sub_eq_zero hzero).symm

/-- A segment in `TCP_ESTABLISHED`. -/
theorem Follows.received {t t' : Tracked} {peer : Peer} (h : Follows t)
    (hstate : t.endpoint.tcb.state = .established) (hnear : Near t (.input env seg peer))
    (hreacts : Reacts (processWindowOption env seg t.endpoint.tcb) seg t'.endpoint.tcb)
    (huna' : t'.una = t.unaAfter t'.endpoint.tcb)
    (hrecorded' : t'.recorded = t.recordedAfter (.input env seg peer) t'.endpoint.tcb log) :
    Marks t'.endpoint.tcb t'.una t'.recorded ∧ InOrder t env seg t' := by
  obtain ⟨hrecover, hinside⟩ := h.recorded hstate
  obtain ⟨hnear, hfar⟩ := hnear
  rw [recordedAfter_established hstate] at hrecorded'
  have hlearned := options_sameControl env seg t.endpoint.tcb
  have hmax : (processWindowOption env seg t.endpoint.tcb).sndMax = t.endpoint.tcb.sndMax := by
    obtain ⟨_, _, _, _, heq⟩ := processWindowOption_eq env seg t.endpoint.tcb
    rw [heq]
  have hvalidAck : validAck (processWindowOption env seg t.endpoint.tcb) seg.hdr.thAck =
      validAck t.endpoint.tcb seg.hdr.thAck := by
    rw [validAck, validAck, hlearned.sndUna, hmax]
  cases hreacts with
  | acked hvalid hack hkept hleft =>
      rw [hvalidAck] at hvalid
      rw [hlearned.recover] at hkept hleft
      rw [hlearned.caState] at hleft
      have hposition : t.position seg = t'.una := by
        rw [huna', Tracked.unaAfter, hack, Tracked.position, if_pos hvalid]
      rw [hposition] at hnear
      have hforward : t.una ≤ t'.una := by
        rw [huna', Tracked.unaAfter]
        exact Nat.le_add_right _ _
      have hword : seg.hdr.thAck = BitVec.ofNat 32 t'.una := by
        rw [huna', Tracked.unaAfter, hack]
        exact position_moves h.una
      have hreached := (@compare_positions t'.una t.recorded hnear (by omega)).2
      rw [← hword, ← hrecover] at hreached
      rw [if_neg fun hin => hin.2 (hleft.mp hin.1).1] at hrecorded'
      refine ⟨⟨?_, fun hin => ?_⟩, ?_, ?_, ?_⟩
      · rw [hkept, hrecorded', hrecover]
      · have hbefore := (hleft.mp hin).2
        rw [← Bool.not_eq_true, hreached] at hbefore
        omega
      · intro _ hthird
        exact absurd (hvalidAck.symm.trans hthird.notValid) (by rw [hvalid]; decide)
      · exact fun hout hin => absurd (hleft.mp hin).1 hout
      · intro hin _
        rw [ne_eq, hleft, not_and, Bool.not_eq_false, hreached]
        exact ⟨fun h => h hin, fun h _ => h⟩
  | entered hthird hbeyond hsame hkept hin =>
      rw [hlearned.sndUna, hlearned.recover] at hbeyond
      rw [hlearned.sndUna] at hsame
      rw [hmax] at hkept
      have hinvalid := hvalidAck.symm.trans hthird.notValid
      rw [Tracked.position, if_neg (by rw [hinvalid]; decide)] at hnear
      have hcompare := (@compare_positions t.una t.recorded hnear hfar).1
      rw [← h.una, ← hrecover] at hcompare
      have hlater := hcompare.mp hbeyond
      have hout : t.endpoint.tcb.caState ≠ .recovery := fun hin => by
        have hearlier := hinside hin
        omega
      rw [unaAfter_same hsame] at huna'
      rw [if_pos ⟨hin, hout⟩, hsame, unaAfter_same hsame] at hrecorded'
      have hflight : t.endpoint.tcb.sndUna ≠ t.endpoint.tcb.sndMax := by
        have hflight := hthird.flight
        rw [hlearned.sndUna, hmax] at hflight
        exact hflight
      have hpos := flight_pos hflight
      refine ⟨⟨?_, fun _ => by omega⟩, ?_, ?_, ?_⟩
      · rw [hkept, hrecorded']
        exact position_moves h.una
      · exact fun _ _ => iff_of_true hin hlater
      · exact fun _ _ => ⟨hthird, hlater, hrecorded'⟩
      · exact fun hin => absurd hin hout
  | kept hvalid hbehind hsame hkept hstays =>
      rw [hvalidAck] at hvalid
      rw [hlearned.sndUna] at hsame
      rw [hlearned.recover] at hkept
      rw [hlearned.caState] at hstays
      rw [hlearned.sndUna, hlearned.recover] at hbehind
      rw [Tracked.position, if_neg (by rw [hvalid]; decide)] at hnear
      have hcompare := (@compare_positions t.una t.recorded hnear hfar).1
      rw [← h.una, ← hrecover] at hcompare
      rw [unaAfter_same hsame] at huna'
      rw [if_neg fun hin => hin.2 (hstays.symm.trans hin.1)] at hrecorded'
      refine ⟨⟨?_, fun hin => ?_⟩, ?_, ?_, ?_⟩
      · rw [hkept, hrecorded', hrecover]
      · rw [huna', hrecorded']
        exact hinside (hstays.symm.trans hin)
      · intro hout hthird
        refine iff_of_false (fun hin => hout (hstays.symm.trans hin)) ?_
        rw [← hcompare, hbehind hthird]
        decide
      · exact fun hout hin => absurd (hstays.symm.trans hin) hout
      · exact fun _ h => absurd (hvalid.symm.trans h) (by decide)

theorem Marks.same {una recorded : Nat} (h : Marks tcb una recorded) (hsame : SameControl tcb tcb') :
    Marks tcb' una recorded :=
  ⟨hsame.recover.trans h.1, fun hin => h.2 (hsame.caState.symm.trans hin)⟩

/-- INIT, at the end of a handshake. -/
theorem init_marks {cc : Out} (hops : tcb.ccOps = .newReno) (hiss : tcb.iss = 0)
    (hcc : congControl env tcb .init = some cc) :
    cc.tcb = { ccInit tcb with recover := 0 } := by
  rw [congControl_newReno hops, newRenoCongControl, hiss] at hcc
  cases hcc
  rfl

/-- The segment that ends the handshake on the listening side. -/
theorem finalAck_marks {t : Tracked} {cc rest : Out} {peer : Peer} (h : Follows t)
    (hstate : t.endpoint.tcb.state = .synRecv)
    (hcc : congControl env (acceptFinalAck t.endpoint.tcb seg) .init = some cc)
    (hrest : handleReceivedData env cc.tcb seg = some rest) :
    Marks rest.tcb (t.unaAfter rest.tcb)
      (t.recordedAfter (.input env seg peer) rest.tcb log) := by
  have hinit := @init_marks (acceptFinalAck t.endpoint.tcb seg) env cc h.ccOps h.iss hcc
  have hops : cc.tcb.ccOps = .newReno := by
    rw [hinit]
    exact h.ccOps
  have hest : rest.tcb.state = .established := by
    rw [handleReceivedData_state hrest, hinit]
    rfl
  have hopening : t.endpoint.tcb.state ≠ .established := by
    rw [hstate]
    decide
  have hlearned := options_sameControl env seg cc.tcb
  have hstart : (processWindowOption env seg cc.tcb).recover = 0 ∧
      (processWindowOption env seg cc.tcb).caState = .open ∧
      (processWindowOption env seg cc.tcb).sndMax = t.endpoint.tcb.sndMax := by
    rw [hlearned.recover, hlearned.caState]
    obtain ⟨_, _, _, _, heq⟩ := processWindowOption_eq env seg cc.tcb
    rw [heq, hinit]
    exact ⟨rfl, rfl, rfl⟩
  obtain ⟨hrecover, hopen, hmax⟩ := hstart
  rw [recordedAfter_opened hopening hest]
  cases received_reacts hops hrest with
  | acked _ _ hkept hleft =>
      have hout : rest.tcb.caState ≠ .recovery := by
        rw [ne_eq, hleft, hopen]
        exact fun hin => absurd hin.1 (by decide)
      rw [if_neg hout]
      exact ⟨hkept.trans hrecover, fun hin => absurd hin hout⟩
  | entered hthird _ huna hkept hin =>
      have hflight := hthird.flight
      rw [← huna, hmax] at hflight
      have hpos := flight_pos hflight
      rw [if_pos hin]
      refine ⟨?_, fun _ => by omega⟩
      rw [hkept, hmax]
      exact position_moves (position_moves h.una)
  | kept _ _ _ hkept hstays =>
      have hout : rest.tcb.caState ≠ .recovery := by
        rw [hstays, hopen]
        decide
      rw [if_neg hout]
      exact ⟨hkept.trans hrecover, fun hin => absurd hin hout⟩

theorem acceptSynAck_ccOps (env : Env) (tcb : Tcb) (seg : TcpSegment) :
    (acceptSynAck env tcb seg).ccOps = tcb.ccOps := by
  rw [acceptSynAck, setTimer]
  obtain ⟨_, _, _, _, heq⟩ := processWindowOption_eq env seg _
  rw [heq]

theorem acceptSynAck_iss (env : Env) (tcb : Tcb) (seg : TcpSegment) :
    (acceptSynAck env tcb seg).iss = tcb.iss := by
  rw [acceptSynAck, setTimer]
  obtain ⟨_, _, _, _, heq⟩ := processWindowOption_eq env seg _
  rw [heq]

theorem synAck_marks {t : Tracked} {cc : Out} {peer : Peer} (h : Follows t)
    (hstate : t.endpoint.tcb.state = .synSent)
    (hcc : congControl env (acceptSynAck env t.endpoint.tcb seg) .init = some cc)
    (hsame : SameControl cc.tcb tcb') (hest : tcb'.state = .established) :
    Marks tcb' (t.unaAfter tcb') (t.recordedAfter (.input env seg peer) tcb' log) := by
  have hops := (acceptSynAck_ccOps env t.endpoint.tcb seg).trans h.ccOps
  have hiss := (acceptSynAck_iss env t.endpoint.tcb seg).trans h.iss
  have hinit := init_marks hops hiss hcc
  have hout : tcb'.caState ≠ .recovery := by
    have hopen : cc.tcb.caState = .open := by
      rw [hinit]
      rfl
    rw [hsame.caState, hopen]
    decide
  have hopening : t.endpoint.tcb.state ≠ .established := by
    rw [hstate]
    decide
  rw [recordedAfter_opened hopening hest, if_neg hout]
  refine ⟨?_, fun hin => absurd hin hout⟩
  rw [hsame.recover, hinit]
  rfl

theorem slowtimo_marks {t : Tracked} {envs : Timer → Env} (h : Follows t)
    (hstate : t.endpoint.tcb.state = .established) (hclocked : Clocked t.endpoint.tcb log tcb') :
    Marks tcb' (t.unaAfter tcb') (t.recordedAfter (.slowtimo envs) tcb' log) := by
  simp only [Tracked.recordedAfter]
  cases hclocked with
  | quiet hquiet =>
      rw [if_neg hquiet.2, unaAfter_same hquiet.1.sndUna]
      exact Marks.same (h.recorded hstate) hquiet.1
  | expired hlog huna hrecover hloss =>
      rw [if_pos hlog, unaAfter_same huna, huna]
      refine ⟨?_, fun hin => absurd (hloss.symm.trans hin) (by decide)⟩
      rw [hrecover]
      exact position_moves h.una

theorem tcbStep_iss {In : TcpSegment → Prop} {Ex : U8 → Prop} (h : TcbStep In Ex tcb log tcb')
    (hiss : tcb.iss = 0) : tcb'.iss = 0 := by
  cases h with
  | output h => exact (SendLoop.outputStep_sameWindow h).iss.trans hiss
  | receive _ h =>
      obtain ⟨_, _, _, _, _, heq⟩ := receiveTrace_eq (.single h)
      rw [heq]
      exact hiss
  | ack _ h =>
      cases h with
      | options env seg =>
          obtain ⟨_, _, _, _, heq⟩ := processWindowOption_eq env seg tcb
          rw [heq]
          exact hiss
      | rearm env =>
          obtain ⟨_, _, heq⟩ := rearmRexmt_eq env tcb
          rw [heq]
          exact hiss
      | sample rttUs =>
          obtain ⟨_, _, _, heq⟩ := utcpXmitTimer_eq tcb rttUs
          rw [heq]
          exact hiss
      | _ => exact hiss
  | timer h =>
      cases h with
      | rexmt env recover =>
          obtain ⟨_, _, heq⟩ := expireRexmt_eq env tcb recover
          rw [heq]
          exact hiss
      | _ => exact hiss
  | opening h =>
      cases h with
      | syn => rfl
      | synAck env seg => exact (acceptSynAck_iss env tcb seg).trans hiss
      | _ => exact hiss

theorem run_fixed (h : e.run s = some (e', log)) (hiss : e.tcb.iss = 0)
    (hops : e.tcb.ccOps = .newReno) : e'.tcb.iss = 0 ∧ e'.tcb.ccOps = .newReno := by
  have htrace : Trace (EndpointStep (fun _ => True) fun _ => True) e log e' :=
    run_trace (fun _ _ _ _ => trivial) (fun _ _ _ => trivial) h
  refine htrace.invariant (I := fun e => e.tcb.iss = 0 ∧ e.tcb.ccOps = .newReno) ?_ ⟨hiss, hops⟩
  rintro e log e' hstep ⟨hiss, hops⟩
  refine ⟨?_, (endpointStep_ccOps hstep).trans hops⟩
  cases hstep with
  | tcb h => exact tcbStep_iss h hiss
  | call => exact hiss
  | write => exact hiss
  | read n =>
      obtain ⟨_, _, heq⟩ := takeBytes_eq e.tcb n
      rw [heq]
      exact hiss

/-- Only the end of a handshake changes whether the endpoint is in `TCP_ESTABLISHED`. -/
theorem Follows.marks {t : Tracked} (h : Follows t) (hnear : Near t s)
    (hrun : RunCases t.endpoint.tcb s out) (hest : out.tcb.state = .established) :
    Marks out.tcb (t.unaAfter out.tcb) (t.recordedAfter s out.tcb out.log) := by
  have hstill : t.endpoint.tcb.state = .established → SameControl t.endpoint.tcb out.tcb →
      Marks out.tcb (t.unaAfter out.tcb) t.recorded := by
    intro hstate hsame
    rw [unaAfter_same hsame.sndUna]
    exact Marks.same (h.recorded hstate) hsame
  cases hrun with
  | connect env ip port =>
      rw [utcpConnect, utcpOutput_state] at hest
      cases hest
  | input env seg peer _ hin =>
      cases hin with
      | syn =>
          rw [utcpOutput_state] at hest
          cases hest
      | synAck cc hstate _ hcc =>
          exact synAck_marks h hstate hcc
            ((setAcknow_sameControl _).trans (utcpOutput_sameControl env.output _)) hest
      | finalAck cc rest hstate _ hcc hrest => exact @finalAck_marks _ env seg t cc rest peer h hstate hcc hrest
      | received _ hreceiving _ hrest =>
          have hstate := (handleReceivedData_state hrest).symm.trans hest
          have hreacts := received_reacts h.ccOps hrest
          exact (@Follows.received out.log env seg t
            ⟨⟨out.tcb, [], [], [], []⟩, _, _⟩ peer h hstate hnear hreacts rfl rfl).1
      | ignored hnot => exact absurd (.inr hest) hnot
  | slowtimo envs _ hslow =>
      have hclock := @utcpSlowtimo_trace (fun _ => True) _ _ _ (fun _ => trivial) hslow
      exact slowtimo_marks h ((clockTrace_state hclock).symm.trans hest)
        (slowtimo_clocked h.ccOps hslow)
  | send envs bytes hstate => exact hstill hstate (send_unrecorded envs _ bytes)
  | wake envs bytes hstate => exact hstill hstate (send_unrecorded envs _ bytes)
  | read env len _ hstate hread => exact hstill hstate (read_sameControl hread)

theorem Follows.next {t t' : Tracked} (h : Follows t) (hnear : Near t s)
    (hnext : t.next s = some t') : Follows t' := by
  obtain ⟨⟨e', log⟩, hrun, rfl⟩ := Option.map_eq_some_iff.mp hnext
  obtain ⟨hiss, hops⟩ := run_fixed hrun h.iss h.ccOps
  obtain ⟨out, hcases, htcb, rfl, -⟩ := run_cases hrun
  refine ⟨hiss, hops, position_moves h.una, fun hest => ?_⟩
  rw [htcb] at hest ⊢
  exact h.marks hnear hcases hest

theorem reached_follows {t : Tracked} (h : ReachedBy tracked Near t) : Follows t := by
  apply h.invariant
  · rintro ⟨e, _, _⟩ ⟨⟨ip, port, rfl | rfl⟩, rfl, rfl⟩
    · exact ⟨rfl, rfl, rfl, fun h => nomatch (h : TcpState.closed = .established)⟩
    · exact ⟨rfl, rfl, rfl, fun h => nomatch (h : TcpState.listen = .established)⟩
  · exact fun t s t' _ ht hnear hstep => ht.next hnear hstep

/-- Fast retransmit and the end of recovery, in true sequence order. -/
theorem recovery_in_order {t t' : Tracked} {peer : Peer} (h : ReachedBy tracked Near t)
    (hnear : Near t (.input env seg peer)) (hstep : tracked.step t (.input env seg peer) t')
    (hstate : t.endpoint.tcb.state = .established) : InOrder t env seg t' := by
  have hfollows := reached_follows h
  obtain ⟨⟨e', log⟩, hrun, rfl⟩ := Option.map_eq_some_iff.mp hstep
  obtain ⟨out, hcases, htcb, -, -⟩ := run_cases hrun
  have hreacts : Reacts (processWindowOption env seg t.endpoint.tcb) seg e'.tcb := by
    rw [htcb]
    cases hcases with
    | input _ _ _ _ hin =>
        cases hin with
        | received _ _ _ hrest => exact received_reacts hfollows.ccOps hrest
        | syn hother => exact absurd (hother.symm.trans hstate) (by decide)
        | synAck _ hother => exact absurd (hother.symm.trans hstate) (by decide)
        | finalAck _ _ hother => exact absurd (hother.symm.trans hstate) (by decide)
        | ignored hnot => exact absurd (.inr hstate) hnot
  exact (@Follows.received log env seg t _ peer hfollows hstate hnear hreacts rfl rfl).2

instance (t : Tracked) (s : Section) : Decidable (Near t s) :=
  match s with
  | .input _ _ _ => inferInstanceAs (Decidable (_ ∧ _))
  | .connect .. | .slowtimo .. | .send .. | .wake .. | .read .. => .isTrue trivial

/-- A byte of the server is lost, two duplicate ACKs have come. -/
def lost : List Section :=
  [Karn.plain thSyn 0, Karn.plain thAck 1, .send (fun _ => .still 0) [65], Karn.plain thAck 1,
    Karn.plain thAck 1]

/-- The third duplicate ACK enters recovery, the ACK of the byte leaves it. -/
theorem recovery_in_order_resent :
    ∃ t t' t'', ReachedBy tracked Near t ∧ tracked.step t (Karn.plain thAck 1) t' ∧
      tracked.step t' (Karn.plain thAck 2) t'' ∧ t.una = 1 ∧ t.recorded = 0 ∧
      t'.endpoint.tcb.caState = .recovery ∧ t'.recorded = 2 ∧ t''.una = 2 ∧
      (t'.endpoint.tcb.caState = .recovery ↔ t.recorded < t.una) ∧
      (t''.endpoint.tcb.caState ≠ .recovery ↔ t'.recorded ≤ t''.una) := by
  have hends : (runAll (guarded Near Tracked.next)
      ⟨.start (utcpListen (utcpBind utcpSocket 0 0)), 0, 0⟩ lost).map (fun t =>
        (t.next (Karn.plain thAck 1)).map fun t' =>
          (t'.next (Karn.plain thAck 2)).map fun t'' => decide (
            Near t (Karn.plain thAck 1) ∧ Near t' (Karn.plain thAck 2) ∧
              t.endpoint.tcb.state = .established ∧ t'.endpoint.tcb.state = .established ∧
              t.endpoint.tcb.caState ≠ .recovery ∧ t'.endpoint.tcb.caState = .recovery ∧
              t.una = 1 ∧ t.recorded = 0 ∧ t'.recorded = 2 ∧ t''.una = 2 ∧
              validAck t'.endpoint.tcb 2 = true)) = some (some (some true)) := by
    decide +kernel
  obtain ⟨t, hrun, hends⟩ := Option.map_eq_some_iff.mp hends
  obtain ⟨t', hthird, hends⟩ := Option.map_eq_some_iff.mp hends
  obtain ⟨t'', hack, hends⟩ := Option.map_eq_some_iff.mp hends
  obtain ⟨hnear, hnear', hstate, hstate', hout, hin, huna, hrecorded, hrecorded', huna'', hvalid⟩ :=
    of_decide_eq_true hends
  have hreach : ReachedBy tracked Near t :=
    .runGuarded (fun _ _ h => h) (fun _ _ _ h => h) _ (.init ⟨⟨0, 0, .inr rfl⟩, rfl, rfl⟩) hrun
  have hentered := recovery_in_order hreach hnear hthird hstate
  obtain ⟨hcounted, hlater, -⟩ := hentered.once hout hin
  have hleft := recovery_in_order (.step hreach hnear hthird) hnear' hack hstate'
  exact ⟨t, t', t'', hreach, hthird, hack, huna, hrecorded, hin, hrecorded', huna'',
    hentered.entry hout hcounted, hleft.exit hin hvalid⟩

theorem Trickle.third {una len : Nat} (h : Trickle una 1 len tcb) (hdups : tcb.tDupacks = 2)
    (env : Env) : ThirdDuplicate (processWindowOption env (ackOf una) tcb) (ackOf una) := by
  rw [ackOf_options]
  refine ⟨validAck_self h.sndUna.symm, h.sndUna.symm, ?_, ackOf_payload una, h.sndUna_ne, hdups⟩
  rw [ackOf_window h, h.sndWnd]
  decide

theorem tracked_next {t : Tracked} (h : t.endpoint.next s = some e') :
    ∃ log, t.next s = some ⟨e', t.unaAfter e'.tcb, t.recordedAfter s e'.tcb log⟩ := by
  obtain ⟨⟨_, log⟩, hrun, rfl⟩ := Option.map_eq_some_iff.mp h
  refine ⟨log, ?_⟩
  rw [Tracked.next, hrun, Option.map_some]

/-- A segment that leaves congestion control in `TCP_CA_OPEN`. -/
theorem tracked_input {t : Tracked} {peer : Peer} (hstate : t.endpoint.tcb.state = .established)
    (hopen : e'.tcb.caState = .open) (h : t.endpoint.next (.input env seg peer) = some e') :
    t.next (.input env seg peer) = some ⟨e', t.unaAfter e'.tcb, t.recorded⟩ := by
  obtain ⟨log, hnext⟩ := tracked_next h
  have hout : ¬ (e'.tcb.caState = .recovery ∧ t.endpoint.tcb.caState ≠ .recovery) := by
    rw [hopen]
    exact fun hin => absurd hin.1 (by decide)
  rw [recordedAfter_established hstate, if_neg hout] at hnext
  exact hnext

theorem tracked_start : ∃ t, Reachable tracked t ∧ Drained 0 t.endpoint ∧ t.una = 1 ∧
    t.recorded = 0 := by
  have hends : (runAll Tracked.next ⟨fresh, 0, 0⟩ LongRuns.opening).map (fun t =>
      (t.una, t.recorded)) = some (1, 0) := by
    decide +kernel
  obtain ⟨t, hrun, hends⟩ := Option.map_eq_some_iff.mp hends
  obtain ⟨e, hopened, he⟩ := drained_start
  have hsame : t.endpoint = e := by
    have hproject : ∀ sections t t', runAll Tracked.next t sections = some t' →
        runAll Endpoint.next t.endpoint sections = some t'.endpoint := by
      intro sections
      induction sections with
      | nil =>
          rintro t t' h
          cases h
          rfl
      | cons s sections ih =>
          intro t t' h
          obtain ⟨mid, hfirst, hrest⟩ := Option.bind_eq_some_iff.mp h
          obtain ⟨result, hresult, rfl⟩ := Option.map_eq_some_iff.mp hfirst
          have hnext : t.endpoint.next s = some result.1 := by
            rw [Endpoint.next, hresult, Option.map_some]
          exact Option.bind_eq_some_iff.mpr ⟨_, hnext, ih _ _ hrest⟩
    exact Option.some.inj ((hproject _ _ _ hrun).symm.trans hopened)
  have hreach : Reachable tracked t :=
    .runAll (fun _ _ _ h => ⟨trivial, h⟩) LongRuns.opening (.init ⟨⟨0, 0, .inr rfl⟩, rfl, rfl⟩) hrun
  exact ⟨t, hreach, hsame ▸ he, (Prod.mk.inj hends).1, (Prod.mk.inj hends).2⟩

theorem tracked_send {n : Nat} {t : Tracked} (hreach : Reachable tracked t)
    (h : Drained n t.endpoint) (hn : n < 2 ^ 31 - 1) :
    ∃ t', Reachable tracked t' ∧ Sent n t'.endpoint ∧ t'.una = t.una ∧ t'.recorded = t.recorded := by
  obtain ⟨e', hnext, he'⟩ := h.send hn
  obtain ⟨log, htracked⟩ := tracked_next hnext
  have hsame := unaAfter_same (he'.trickle.sndUna.trans h.trickle.sndUna.symm)
  exact ⟨_, .step hreach trivial htracked, he', hsame, rfl⟩

theorem una_advances {t : Tracked} {n : Nat} (hbefore : t.endpoint.tcb.sndUna = seqOf n)
    (hafter : tcb'.sndUna = seqOf (n + 1)) : t.unaAfter tcb' = t.una + 1 := by
  rw [Tracked.unaAfter, hbefore, hafter, ← seqOf_add, BitVec.add_comm]
  exact congrArg (fun x : U32 => t.una + x.toNat) (BitVec.add_sub_cancel 1 (seqOf n))

theorem tracked_drained (n : Nat) (hn : n < 2 ^ 31 - 1) :
    ∃ t, Reachable tracked t ∧ Drained n t.endpoint ∧ t.una = n + 1 ∧ t.recorded = 0 := by
  induction n with
  | zero => exact tracked_start
  | succ n ih =>
      obtain ⟨t, hreach, ht, huna, hrecorded⟩ := ih (by omega)
      obtain ⟨t', hreach', ht', huna', hrecorded'⟩ := tracked_send hreach ht (by omega)
      obtain ⟨e'', hnext, he''⟩ := ht'.acked hn
      have htracked := tracked_input ht'.trickle.state he''.trickle.caState hnext
      have hone := una_advances ht'.trickle.sndUna he''.trickle.sndUna
      refine ⟨_, .step hreach' trivial htracked, he'', ?_, hrecorded'.trans hrecorded⟩
      rw [hone, huna', huna]

theorem tracked_duplicate {t : Tracked} {una : Nat} {dups : U8} (hreach : Reachable tracked t)
    (h : Stuck una dups t.endpoint) (huna : una < 2 ^ 31) (hfew : dups.toNat ≤ 2)
    (hbehind : seqGt (seqOf una) 0 = false) :
    ∃ t', tracked.step t (arrives (ackOf una)) t' ∧ Reachable tracked t' ∧
      Stuck una (dups + 1) t'.endpoint ∧ t'.una = t.una ∧ t'.recorded = t.recorded := by
  obtain ⟨e', hnext, he'⟩ := h.duplicate huna hfew hbehind
  obtain ⟨len, htrickle⟩ := h.trickle
  obtain ⟨len', htrickle'⟩ := he'.trickle
  have htracked := tracked_input htrickle.state htrickle'.caState hnext
  have hsame := unaAfter_same (htrickle'.sndUna.trans htrickle.sndUna.symm)
  exact ⟨_, htracked, .step hreach trivial htracked, he', hsame, rfl⟩

/-- After 2^31 bytes without a loss, a third duplicate ACK no longer starts a fast
retransmit. -/
theorem retransmit_disabled :
    ¬ ∀ t t' env seg peer, Reachable tracked t → tracked.step t (.input env seg peer) t' →
      t.endpoint.tcb.state = .established → InOrder t env seg t' := by
  intro horder
  obtain ⟨t, hreach, ht, huna, hrecorded⟩ := tracked_drained (2 ^ 31 - 2) (by decide)
  obtain ⟨t₁, hreach₁, ht₁, huna₁, hrecorded₁⟩ := tracked_send hreach ht (by decide)
  obtain ⟨e₂, hnext₂, he₂⟩ := ht₁.overruns rfl
  obtain ⟨len, htrickle⟩ := he₂.trickle
  have htracked := tracked_input ht₁.trickle.state htrickle.caState hnext₂
  have hreach₂ := ReachedBy.step hreach₁ trivial htracked
  have hbehind : seqGt (seqOf (2 ^ 31 - 2 + 1)) 0 = false := by decide
  obtain ⟨t₃, -, hreach₃, ht₃, huna₃, hrecorded₃⟩ :=
    tracked_duplicate hreach₂ he₂ (by decide) (by decide) hbehind
  obtain ⟨t₄, -, hreach₄, ht₄, huna₄, hrecorded₄⟩ :=
    tracked_duplicate hreach₃ ht₃ (by decide) (by decide) hbehind
  obtain ⟨t₅, hstep, -, ht₅, -, -⟩ := tracked_duplicate hreach₄ ht₄ (by decide) (by decide) hbehind
  obtain ⟨len₄, htrickle₄⟩ := ht₄.trickle
  obtain ⟨len₅, htrickle₅⟩ := ht₅.trickle
  have hout : t₄.endpoint.tcb.caState ≠ .recovery := by
    rw [htrickle₄.caState]
    decide
  have hthird := Trickle.third htrickle₄ ht₄.tDupacks (.still 0)
  have hentry := (horder t₄ t₅ _ _ _ hreach₄ hstep htrickle₄.state).entry hout hthird
  have hbeyond : t₄.recorded < t₄.una := by
    have hone : t₄.una = t₁.una + 1 := (huna₄.trans huna₃).trans
      (una_advances ht₁.trickle.sndUna htrickle.sndUna)
    have hzero : t₄.recorded = t₁.recorded := hrecorded₄.trans hrecorded₃
    omega
  have hin := hentry.mpr hbeyond
  exact absurd (htrickle₅.caState.symm.trans hin) (by decide)

end Utcp.Recovery
