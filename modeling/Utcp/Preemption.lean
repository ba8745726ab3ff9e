import Utcp.WindowGrowth

/-!
LSTM-Reno against New Reno: where the predictor changes what congestion control
does, and how much.
-/

namespace Utcp.Preemption

open Utcp.Tcp
open Utcp.Utils
open Utcp.CongestionControl
open Utcp.Input
open Utcp.Api
open Utcp.WindowGrowth

variable {env : Env} {tcb tcb' : Tcb} {args : CcEventArgs} {acked : U32}

theorem ack_outside (env : Env) (acked rttUs : U32) (hstate : tcb.caState ≠ .recovery) (hpos : tcb.cwnd ≠ 0) :
    lstmRenoCongControl env tcb (.ack acked rttUs) =
        some ⟨grown (preempted env tcb) acked, []⟩ ∧
      newRenoCongControl env tcb (.ack acked rttUs) = some ⟨grown tcb acked, []⟩ := by
  have hlstm : ccAimd (preempted env tcb) acked = some (grown (preempted env tcb) acked) :=
    ccAimd_eq acked (.inr hpos)
  have hreno : ccAimd tcb acked = some (grown tcb acked) := ccAimd_eq acked (.inr hpos)
  constructor
  · rw [lstmRenoCongControl, if_neg hstate]
    exact congrArg (fun result => result.bind fun tcb => some (Out.mk tcb [])) hlstm
  · rw [newRenoCongControl, if_neg hstate]
    exact congrArg (fun result => result.bind fun tcb => some (Out.mk tcb [])) hreno

theorem ack_recovery (acked rttUs : U32) (hstate : tcb.caState = .recovery) :
    lstmRenoCongControl env tcb (.ack acked rttUs) =
      newRenoCongControl env tcb (.ack acked rttUs) := by
  rw [lstmRenoCongControl, newRenoCongControl, if_pos hstate, if_pos hstate, lstmRecoveryAck_eq]

theorem preempted_eq (h : env.fired = true → ¬ ccHalveSsthresh (flightSize tcb) < tcb.ssthresh) :
    preempted env tcb = tcb := by
  rw [preempted, if_neg (not_and.mpr h)]

theorem lstm_eq_of_preempted (h : preempted env tcb = tcb) (args : CcEventArgs) :
    lstmRenoCongControl env tcb args = newRenoCongControl env tcb args := by
  cases args with
  | ack acked rttUs =>
      have haimd : ccAimd (preempted env tcb) acked = ccAimd tcb acked := by
        rw [h]
      by_cases hstate : tcb.caState = .recovery
      · exact ack_recovery acked rttUs hstate
      · rw [lstmRenoCongControl, newRenoCongControl, if_neg hstate, if_neg hstate]
        exact congrArg (fun result => result.bind fun tcb => some (Out.mk tcb [])) haimd
  | dupAck totalDups => exact congrArg some (lstmRecoveryDupAck_eq env tcb totalDups)
  | _ => rfl

/-- One event of a sequence, and how the sender moves on before it. -/
structure Occurrence where
  env : Env
  move : Tcb → Tcb
  args : CcEventArgs

/-- The block after some events, and what was done at all of them. -/
def runEvents (control : Env → Tcb → CcEventArgs → Option Out) :
    Tcb → List Occurrence → Option Out
  | tcb, [] => some ⟨tcb, []⟩
  | tcb, event :: events => do
      let out ← control event.env (event.move tcb) event.args
      let rest ← runEvents control out.tcb events
      some ⟨rest.tcb, out.log ++ rest.log⟩

/-- While the predictor is silent, LSTM-Reno is New Reno. -/
theorem runEvents_silent (events : List Occurrence)
    (hsilent : ∀ event ∈ events, event.env.fired = false) :
    ∀ tcb, runEvents lstmRenoCongControl tcb events = runEvents newRenoCongControl tcb events := by
  induction events with
  | nil => exact fun _ => rfl
  | cons event events ih =>
      intro tcb
      have hquiet : event.env.fired = false := hsilent event (List.mem_cons_self ..)
      have hstep : lstmRenoCongControl event.env (event.move tcb) event.args =
          newRenoCongControl event.env (event.move tcb) event.args := by
        apply lstm_eq_of_preempted
        apply preempted_eq
        rintro hfired
        rw [hquiet] at hfired
        cases hfired
      have hrest := ih fun event hevent => hsilent event (List.mem_cons_of_mem _ hevent)
      simp only [runEvents, hstep, hrest]

theorem aimdIncrease_mono (hsame : tcb'.cwnd = tcb.cwnd) (hthresh : tcb'.ssthresh ≤ tcb.ssthresh)
    (hcwnd : mss ≤ tcb.cwnd) (hacked : 0 < acked) :
    aimdIncrease tcb' acked ≤ aimdIncrease tcb acked := by
  have hshare : share tcb acked ≤ min acked.toNat mss.toNat := by
    refine Nat.le_min.mpr ⟨?_, share_le tcb acked⟩
    apply Nat.div_le_of_le_mul
    rw [Nat.mul_comm]
    exact Nat.mul_le_mul hcwnd (Nat.min_le_left _ _)
  have hone : 1 ≤ min acked.toNat mss.toNat := Nat.le_min.mpr ⟨hacked, by decide⟩
  simp only [aimdIncrease, share, hsame]
  split
  · rename_i hslow
    have hslow' : tcb.cwnd < tcb.ssthresh := Nat.lt_of_lt_of_le hslow hthresh
    rw [if_pos hslow']
  · split
    · exact Nat.max_le.mpr ⟨hshare, hone⟩
    · exact le_rfl

theorem preempted_ssthresh_le (env : Env) (tcb : Tcb) :
    (preempted env tcb).ssthresh ≤ tcb.ssthresh := by
  simp only [preempted]
  split
  · rename_i hlower
    exact BitVec.le_of_lt hlower.2
  · exact BitVec.le_refl _

/-- What LSTM-Reno means to be: New Reno while the predictor is silent and outside
`TCP_CA_OPEN`, and softer for an ACK in it. -/
structure Conservative (env : Env) (tcb : Tcb) (args : CcEventArgs) : Prop where
  same : env.fired = false ∨ tcb.caState ≠ .open →
    lstmRenoCongControl env tcb args = newRenoCongControl env tcb args
  softer : env.fired = true → tcb.caState = .open → ∀ acked rttUs, args = .ack acked rttUs →
    ∃ out out', lstmRenoCongControl env tcb args = some out ∧
      newRenoCongControl env tcb args = some out' ∧ out.tcb.cwnd ≤ out'.tcb.cwnd ∧
      out.tcb.ssthresh ≤ out'.tcb.ssthresh ∧ out.log = out'.log ∧
      out.tcb = { out'.tcb with cwnd := out.tcb.cwnd, ssthresh := out.tcb.ssthresh }

/-- The predictor lowers the threshold although the connection is neither open
nor in recovery. -/
def ActsOutsideOpen (env : Env) (tcb : Tcb) (args : CcEventArgs) : Prop :=
  (∃ acked rttUs, args = .ack acked rttUs) ∧ env.fired = true ∧ tcb.caState ≠ .open ∧
    tcb.caState ≠ .recovery ∧ ccHalveSsthresh (flightSize tcb) < tcb.ssthresh

theorem ActsOutsideOpen.differs (h : ActsOutsideOpen env tcb args) (hpos : tcb.cwnd ≠ 0) :
    lstmRenoCongControl env tcb args ≠ newRenoCongControl env tcb args := by
  obtain ⟨⟨acked, rttUs, rfl⟩, hfired, -, hstate, hlower⟩ := h
  obtain ⟨hlstm, hreno⟩ := ack_outside env acked rttUs hstate hpos
  have hthresh : (preempted env tcb).ssthresh = ccHalveSsthresh (flightSize tcb) := by
    rw [preempted, if_pos ⟨hfired, hlower⟩]
  rw [hlstm, hreno]
  rintro heq
  have hsame : (preempted env tcb).ssthresh = tcb.ssthresh :=
    congrArg (fun out => out.tcb.ssthresh) (Option.some.inj heq)
  rw [← hsame, hthresh] at hlower
  exact absurd hlower (BitVec.lt_irrefl _)

theorem lstm_eq_of_quiet (hopen : env.fired = false ∨ tcb.caState ≠ .open)
    (h : ¬ ActsOutsideOpen env tcb args) :
    lstmRenoCongControl env tcb args = newRenoCongControl env tcb args := by
  cases args with
  | ack acked rttUs =>
      by_cases hstate : tcb.caState = .recovery
      · exact ack_recovery acked rttUs hstate
      · apply lstm_eq_of_preempted
        apply preempted_eq
        rintro hfired hlower
        have hnotopen : tcb.caState ≠ .open := by
          apply hopen.resolve_left
          rw [hfired]
          decide
        exact h ⟨⟨acked, rttUs, rfl⟩, hfired, hnotopen, hstate, hlower⟩
  | _ => rfl

theorem softer_ack (env : Env) (rttUs : U32) (hstate : tcb.caState = .open) (hcwnd : mss ≤ tcb.cwnd)
    (hacked : 0 < acked) (hfits : tcb.cwnd.toNat + aimdIncrease tcb acked < 2 ^ 32) :
    ∃ out out', lstmRenoCongControl env tcb (.ack acked rttUs) = some out ∧
      newRenoCongControl env tcb (.ack acked rttUs) = some out' ∧ out.tcb.cwnd ≤ out'.tcb.cwnd ∧
      out.tcb.ssthresh ≤ out'.tcb.ssthresh ∧ out.log = out'.log ∧
      out.tcb = { out'.tcb with cwnd := out.tcb.cwnd, ssthresh := out.tcb.ssthresh } := by
  have hne : tcb.cwnd ≠ 0 := by
    rintro hzero
    rw [hzero] at hcwnd
    exact absurd hcwnd (by decide)
  have houtside : tcb.caState ≠ .recovery := by
    rw [hstate]
    decide
  obtain ⟨hlstm, hreno⟩ := ack_outside env acked rttUs houtside hne
  have hle : aimdIncrease (preempted env tcb) acked ≤ aimdIncrease tcb acked :=
    aimdIncrease_mono rfl (preempted_ssthresh_le env tcb) hcwnd hacked
  refine ⟨_, _, hlstm, hreno, ?_, preempted_ssthresh_le env tcb, rfl, rfl⟩
  show (tcb.cwnd + BitVec.ofNat 32 (aimdIncrease (preempted env tcb) acked)).toNat ≤
    (tcb.cwnd + BitVec.ofNat 32 (aimdIncrease tcb acked)).toNat
  rw [toNat_add_ofNat hfits, toNat_add_ofNat ((Nat.add_le_add_left hle _).trans_lt hfits)]
  exact Nat.add_le_add_left hle _

/-- `handle_received_data` reports an ACK only for bytes it acknowledges. -/
theorem newlyAcked_pos {ackNum : U32} (h : validAck tcb ackNum) : 0 < ackNum - tcb.sndUna := by
  have hgt : 0 < (ackNum - tcb.sndUna).toInt := of_decide_eq_true (Bool.and_eq_true_iff.mp h).1
  exact ((SerialNumbers.toInt_pos_iff _).mp hgt).1

/-- LSTM-Reno is what it means to be unless the predictor lowers the threshold
outside `TCP_CA_OPEN`. -/
theorem conservative_iff (hcwnd : mss ≤ tcb.cwnd)
    (hacked : ∀ acked rttUs, args = .ack acked rttUs → 0 < acked)
    (hfits : Fits env { tcb with ccOps := .newReno } args) :
    (Conservative env tcb args ↔ ¬ ActsOutsideOpen env tcb args) ∧
      ∀ events : List Occurrence, (∀ event ∈ events, event.env.fired = false) →
        runEvents lstmRenoCongControl tcb events = runEvents newRenoCongControl tcb events := by
  refine ⟨⟨?_, ?_⟩, fun events hsilent => runEvents_silent events hsilent tcb⟩
  · rintro h hacts
    have hne : tcb.cwnd ≠ 0 := by
      rintro hzero
      rw [hzero] at hcwnd
      exact absurd hcwnd (by decide)
    exact hacts.differs hne (h.same (.inr hacts.2.2.1))
  · rintro h
    refine ⟨fun hopen => lstm_eq_of_quiet hopen h, ?_⟩
    rintro hfired hstate acked rttUs rfl
    have hopen : tcb.caState ≠ .recovery := by
      rw [hstate]
      decide
    simp only [Fits, addition, if_neg hopen] at hfits
    exact softer_ack env rttUs hstate hcwnd (hacked acked rttUs rfl) hfits

/-- The predictor fires. -/
def alarm : Env := { Env.still 0 with fired := true }

/-- An open connection with 20000 bytes in flight. -/
def cruising : Tcb :=
  { utcpSocket with cwnd := 20000, ssthresh := 0xFFFFFFFF, sndNxt := 20000, sndMax := 20000 }

theorem conservative_cruising : Conservative alarm cruising (.ack 1400 0) := by
  apply (conservative_iff ?_ ?_ ?_).1.mpr
  · rintro ⟨-, -, hopen, -⟩
    exact hopen rfl
  · decide
  · rintro acked rttUs hargs
    cases hargs
    decide
  · decide

/-- The block after a timeout with 20000 bytes in flight, when the segment sent
again has been acknowledged. -/
def afterLoss : Tcb := { utcpSocket with cwnd := 1400, ssthresh := 10000, caState := .loss }

/-- The predictor lowers the threshold of a connection that recovers from a loss. -/
theorem lstm_acts_in_loss :
    (lstmRenoCongControl alarm afterLoss (.ack 1400 0)).map (·.tcb.ssthresh) = some 2800 ∧
      (newRenoCongControl alarm afterLoss (.ack 1400 0)).map (·.tcb.ssthresh) = some 10000 ∧
      ¬ Conservative alarm afterLoss (.ack 1400 0) := by
  refine ⟨by decide, by decide, ?_⟩
  rintro h
  have hsame := h.same (.inr (by decide))
  have hthresh := congrArg (Option.map fun out => out.tcb.ssthresh) hsame
  exact absurd hthresh (by decide)

end Utcp.Preemption
