import Utcp.SendLoop
import Utcp.Accounting

/-!
The congestion window over whole sequences of congestion events, for each of the
four modules.
-/

namespace Utcp.WindowGrowth

open TransitionSystems
open Traces
open Utcp.Tcp
open Utcp.Utils
open Utcp.Output
open Utcp.CongestionControl
open Utcp.Sections
open Utcp.SendLoop
open Utcp.Api

variable {inside : Prop} {tcb tcb' : Tcb} {acked : U32} {env : Env} {args : CcEventArgs} {out : Out}

/-- The share of a segment that `cc_aimd` adds for an ACK in congestion avoidance. -/
def share (tcb : Tcb) (acked : U32) : Nat :=
  min acked.toNat tcb.cwnd.toNat * mss.toNat / tcb.cwnd.toNat

/-- What `cc_aimd` adds to the window. -/
def aimdIncrease (tcb : Tcb) (acked : U32) : Nat :=
  if tcb.cwnd < tcb.ssthresh then min acked.toNat mss.toNat
  else max (share tcb acked) 1

/-- `ca_state` after `cc_aimd`. -/
def afterAimd (caState : TcpCaState) : TcpCaState := if caState = .loss then .open else caState

theorem share_le (tcb : Tcb) (acked : U32) : share tcb acked ≤ mss.toNat :=
  Nat.div_le_of_le_mul (Nat.mul_le_mul_right _ (Nat.min_le_right _ _))

theorem aimdIncrease_le (tcb : Tcb) (acked : U32) : aimdIncrease tcb acked ≤ mss.toNat := by
  rw [aimdIncrease]
  split
  · exact Nat.min_le_right _ _
  · exact Nat.max_le.mpr ⟨share_le tcb acked, by decide⟩

theorem ofNat_min (a b : U32) : BitVec.ofNat 32 (min a.toNat b.toNat) = if a < b then a else b := by
  rw [← smaller_toNat, BitVec.ofNat_toNat, BitVec.setWidth_eq]

/-- The block `cc_aimd` leaves. -/
def grown (tcb : Tcb) (acked : U32) : Tcb :=
  { tcb with
    caState := afterAimd tcb.caState
    cwnd := tcb.cwnd + BitVec.ofNat 32 (aimdIncrease tcb acked) }

theorem eq_of_ccAimd (h : ccAimd tcb acked = some tcb') : tcb' = grown tcb acked := by
  simp only [ccAimd, smaller_toNat] at h
  rw [grown, aimdIncrease]
  split at h
  · rename_i hsmall
    rw [if_pos hsmall, ofNat_min]
    cases h
    rfl
  · rename_i hlarge
    rw [if_neg hlarge]
    split at h
    · cases h
    · cases h
      rfl

/-- `cc_aimd` divides only by a window that has reached the threshold. -/
theorem ccAimd_eq (acked : U32) (hsafe : 0 < tcb.ssthresh ∨ tcb.cwnd ≠ 0) :
    ccAimd tcb acked = some (grown tcb acked) := by
  have hsome : (ccAimd tcb acked).isSome := by
    simp only [ccAimd, smaller_toNat]
    split
    · rfl
    · rename_i hlarge
      split
      · rename_i hzero
        rw [hzero] at hlarge
        exact absurd (hsafe.resolve_right (not_not_intro hzero)) hlarge
      · rfl
  obtain ⟨tcb', h⟩ := Option.isSome_iff_exists.mp hsome
  rw [h, eq_of_ccAimd h]

/-- The block `cc_aimd` of LSTM-Reno works on. -/
def preempted (env : Env) (tcb : Tcb) : Tcb :=
  let newSsthresh := ccHalveSsthresh (flightSize tcb)
  { tcb with
    ssthresh := if env.fired ∧ newSsthresh < tcb.ssthresh then newSsthresh else tcb.ssthresh }

/-- The window a partial ACK leaves, before the segment that is retransmitted
counts again. -/
def deflated (tcb : Tcb) (acked : U32) : U32 := if acked ≥ tcb.cwnd then mss else tcb.cwnd - acked

/-- What is added to what where an ACK arrives in recovery. -/
def recoveryAddition (tcb : Tcb) (acked : U32) : U32 × Nat :=
  if seqGeq tcb.sndUna tcb.recover then (tcb.ssthresh, 0) else (deflated tcb acked, mss.toNat)

/-- Whether a duplicate ACK inflates the window. -/
def inflates (tcb : Tcb) (totalDups : U32) : Bool :=
  match tcb.ccOps with
  | .tahoe => false
  | .reno => totalDups > 3
  | _ => totalDups > 3 && tcb.caState == .recovery

/-- The addition to `cwnd` an event makes: what is added to what. -/
def addition (env : Env) (tcb : Tcb) : CcEventArgs → U32 × Nat
  | .ack acked _ =>
      match tcb.ccOps with
      | .tahoe => (tcb.cwnd, aimdIncrease tcb acked)
      | .reno =>
          if tcb.caState = .recovery then (tcb.ssthresh, 0)
          else (tcb.cwnd, aimdIncrease tcb acked)
      | .newReno =>
          if tcb.caState = .recovery then recoveryAddition tcb acked
          else (tcb.cwnd, aimdIncrease tcb acked)
      | .lstmReno =>
          if tcb.caState = .recovery then recoveryAddition tcb acked
          else (tcb.cwnd, aimdIncrease (preempted env tcb) acked)
  | .dupAck totalDups => (tcb.cwnd, if inflates tcb totalDups then mss.toNat else 0)
  | _ => (tcb.cwnd, 0)

/-- The addition to `cwnd` does not wrap. -/
def Fits (env : Env) (tcb : Tcb) (args : CcEventArgs) : Prop :=
  (addition env tcb args).1.toNat + (addition env tcb args).2 < 2 ^ 32

instance (env : Env) (tcb : Tcb) (args : CcEventArgs) : Decidable (Fits env tcb args) :=
  inferInstanceAs (Decidable (_ < _))

theorem Fits.inflate {totalDups : U32} (h : Fits env tcb (.dupAck totalDups))
    (hinflates : inflates tcb totalDups) : tcb.cwnd.toNat + mss.toNat < 2 ^ 32 := by
  simp only [Fits, addition, if_pos hinflates] at h
  exact h

theorem toNat_add_ofNat {a : U32} {n : Nat} (h : a.toNat + n < 2 ^ 32) :
    (a + BitVec.ofNat 32 n).toNat = a.toNat + n := by
  rw [BitVec.toNat_add, BitVec.toNat_ofNat]
  omega

/-- The floor of the threshold, and of the window while the additions stay `inside`. -/
structure Floors (inside : Prop) (tcb : Tcb) : Prop where
  cwnd : inside → mss.toNat ≤ tcb.cwnd.toNat
  ssthresh : 2 * mss.toNat ≤ tcb.ssthresh.toNat

theorem le_ccHalveSsthresh (flight : U32) : 2 * mss.toNat ≤ (ccHalveSsthresh flight).toNat := by
  rw [ccHalveSsthresh]
  split
  · rename_i hlarge
    exact Nat.le_of_lt hlarge
  · decide

theorem ccHalveSsthresh_le (flight : U32) : (ccHalveSsthresh flight).toNat ≤ 2 ^ 31 := by
  rw [ccHalveSsthresh]
  split
  · have hflight := flight.isLt
    rw [BitVec.toNat_udiv]
    change flight.toNat / 2 ≤ 2 ^ 31
    omega
  · decide

theorem floors_ccInit (tcb : Tcb) (recover : U32) : Floors inside { ccInit tcb with recover } :=
  ⟨fun _ => show mss.toNat ≤ (mss * iw).toNat by decide,
    show 2 * mss.toNat ≤ (0xFFFFFFFF : U32).toNat by decide⟩

theorem Floors.toThreshold (h : Floors inside tcb) (caState : TcpCaState) :
    Floors inside { tcb with cwnd := tcb.ssthresh, caState } :=
  ⟨fun _ => (Nat.le_mul_of_pos_left _ (by decide)).trans h.ssthresh, h.ssthresh⟩

theorem Floors.ccTimeout (h : Floors inside tcb) (flight : U32) :
    Floors inside (ccTimeout tcb flight) := by
  constructor
  · rintro -
    rw [CongestionControl.ccTimeout]
  · simp only [CongestionControl.ccTimeout]
    generalize (if flight < tcb.cwnd then flight else tcb.cwnd) = effectiveFlight
    split
    · exact h.ssthresh
    · exact le_ccHalveSsthresh _

theorem Floors.ccAimd (h : Floors inside tcb)
    (hfits : inside → tcb.cwnd.toNat + aimdIncrease tcb acked < 2 ^ 32)
    (haimd : ccAimd tcb acked = some tcb') : Floors inside tcb' := by
  rw [eq_of_ccAimd haimd]
  constructor
  · rintro hinside
    show mss.toNat ≤ (tcb.cwnd + BitVec.ofNat 32 (aimdIncrease tcb acked)).toNat
    rw [toNat_add_ofNat (hfits hinside)]
    exact (h.cwnd hinside).trans (Nat.le_add_right _ _)
  · exact h.ssthresh

theorem le_fastRetransmit (flight : U32) :
    mss.toNat ≤ (ccHalveSsthresh flight + 3 * mss).toNat := by
  have hlow := le_ccHalveSsthresh flight
  have hhigh := ccHalveSsthresh_le flight
  rw [Accounting.toNat_add_of_lt]
  · exact (Nat.le_mul_of_pos_left _ (by decide)).trans (hlow.trans (Nat.le_add_right _ _))
  · have h3 : (3 * mss : U32).toNat = 4200 := by decide
    omega

theorem Floors.burst {cwnd : U32} (h : Floors inside { tcb with cwnd })
    (readings : Nat → Reading) : Floors inside (utcpOutput readings { tcb with cwnd }).tcb := by
  have hsame := outputTrace_sameWindow (utcpOutput_trace readings { tcb with cwnd })
  constructor
  · rw [hsame.cwnd]
    exact h.cwnd
  · rw [hsame.ssthresh]
    exact h.ssthresh

theorem Floors.inflate (h : Floors inside tcb)
    (hfits : inside → tcb.cwnd.toNat + mss.toNat < 2 ^ 32) (readings : Nat → Reading) :
    Floors inside (utcpOutput readings { tcb with cwnd := tcb.cwnd + mss }).tcb := by
  apply Floors.burst
  constructor
  · rintro hinside
    show mss.toNat ≤ (tcb.cwnd + mss).toNat
    rw [Accounting.toNat_add_of_lt (hfits hinside)]
    exact Nat.le_add_left _ _
  · exact h.ssthresh

theorem tahoe_floors (h : Floors inside tcb) (hops : tcb.ccOps = .tahoe)
    (hfits : inside → Fits env tcb args)
    (hout : tahoeCongControl env tcb args = some out) : Floors inside out.tcb := by
  cases args with
  | init =>
      cases hout
      exact floors_ccInit tcb tcb.recover
  | ack acked rttUs =>
      simp only [Fits, addition, hops] at hfits
      obtain ⟨tcb', haimd, hout⟩ := Option.bind_eq_some_iff.mp hout
      cases hout
      have hopen : Floors inside { tcb with caState := .open } := ⟨h.cwnd, h.ssthresh⟩
      exact hopen.ccAimd hfits haimd
  | dupAck totalDups =>
      simp only [tahoeCongControl] at hout
      split at hout
      · cases hout
        exact ⟨fun _ => le_rfl, le_ccHalveSsthresh _⟩
      · cases hout
        exact h
  | timeout flight =>
      cases hout
      exact h.ccTimeout flight

theorem reno_floors (h : Floors inside tcb) (hops : tcb.ccOps = .reno)
    (hfits : inside → Fits env tcb args)
    (hout : renoCongControl env tcb args = some out) : Floors inside out.tcb := by
  cases args with
  | init =>
      cases hout
      exact floors_ccInit tcb tcb.recover
  | ack acked rttUs =>
      simp only [renoCongControl] at hout
      simp only [Fits, addition, hops] at hfits
      split at hout
      · cases hout
        exact h.toThreshold .open
      · rename_i hstate
        rw [if_neg hstate] at hfits
        obtain ⟨tcb', haimd, hout⟩ := Option.bind_eq_some_iff.mp hout
        cases hout
        exact h.ccAimd hfits haimd
  | dupAck totalDups =>
      simp only [renoCongControl] at hout
      split at hout
      · cases hout
        exact ⟨fun _ => le_fastRetransmit _, le_ccHalveSsthresh _⟩
      · split at hout
        · rename_i hdups
          cases hout
          have hinflates : inflates tcb totalDups := by
            rw [inflates, hops]
            simpa using hdups
          exact h.inflate (fun hinside => (hfits hinside).inflate hinflates) env.burst
        · cases hout
          exact h
  | timeout flight =>
      cases hout
      exact h.ccTimeout flight

theorem recoveryAck_floors (h : Floors inside tcb)
    (hfits : inside →
      (recoveryAddition tcb acked).1.toNat + (recoveryAddition tcb acked).2 < 2 ^ 32) :
    Floors inside (recoveryAck env tcb acked).tcb := by
  rw [recoveryAddition] at hfits
  simp only [recoveryAck]
  split
  · exact h.toThreshold .open
  · rename_i hpartial
    rw [if_neg hpartial] at hfits
    constructor
    · rintro hinside
      show mss.toNat ≤ (deflated tcb acked + mss).toNat
      rw [Accounting.toNat_add_of_lt (hfits hinside)]
      exact Nat.le_add_left _ _
    · exact h.ssthresh

theorem recoveryDupAck_floors {totalDups : U32} (h : Floors inside tcb)
    (hfits : inside → totalDups > 3 ∧ tcb.caState = .recovery →
      tcb.cwnd.toNat + mss.toNat < 2 ^ 32) :
    Floors inside (recoveryDupAck env tcb totalDups).tcb := by
  simp only [recoveryDupAck]
  split
  · split
    · exact ⟨fun _ => le_fastRetransmit _, le_ccHalveSsthresh _⟩
    · exact h
  · split
    · rename_i hinflates
      exact h.inflate (fun hinside => hfits hinside hinflates) env.burst
    · exact h

theorem newReno_floors (h : Floors inside tcb) (hops : tcb.ccOps = .newReno)
    (hfits : inside → Fits env tcb args)
    (hout : newRenoCongControl env tcb args = some out) : Floors inside out.tcb := by
  cases args with
  | init =>
      cases hout
      exact floors_ccInit tcb tcb.iss
  | ack acked rttUs =>
      simp only [newRenoCongControl] at hout
      simp only [Fits, addition, hops] at hfits
      split at hout
      · rename_i hstate
        cases hout
        rw [if_pos hstate] at hfits
        exact recoveryAck_floors h hfits
      · rename_i hstate
        rw [if_neg hstate] at hfits
        obtain ⟨tcb', haimd, hout⟩ := Option.bind_eq_some_iff.mp hout
        cases hout
        exact h.ccAimd hfits haimd
  | dupAck totalDups =>
      cases hout
      apply recoveryDupAck_floors h
      rintro hinside hrecovery
      apply (hfits hinside).inflate
      rw [inflates, hops]
      simpa using hrecovery
  | timeout flight =>
      cases hout
      have hrecover : Floors inside { tcb with recover := tcb.sndMax } := ⟨h.cwnd, h.ssthresh⟩
      exact hrecover.ccTimeout flight

theorem Floors.preempted (h : Floors inside tcb) (env : Env) :
    Floors inside (preempted env tcb) := by
  constructor
  · exact h.cwnd
  · simp only [WindowGrowth.preempted]
    split
    · exact le_ccHalveSsthresh _
    · exact h.ssthresh

theorem lstmReno_floors (h : Floors inside tcb) (hops : tcb.ccOps = .lstmReno)
    (hfits : inside → Fits env tcb args)
    (hout : lstmRenoCongControl env tcb args = some out) : Floors inside out.tcb := by
  cases args with
  | init =>
      cases hout
      exact floors_ccInit tcb tcb.iss
  | ack acked rttUs =>
      simp only [lstmRenoCongControl] at hout
      simp only [Fits, addition, hops] at hfits
      split at hout
      · rename_i hstate
        cases hout
        rw [if_pos hstate] at hfits
        rw [lstmRecoveryAck_eq]
        exact recoveryAck_floors h hfits
      · rename_i hstate
        rw [if_neg hstate] at hfits
        obtain ⟨tcb', haimd, hout⟩ := Option.bind_eq_some_iff.mp hout
        cases hout
        exact (h.preempted env).ccAimd hfits haimd
  | dupAck totalDups =>
      cases hout
      rw [lstmRecoveryDupAck_eq]
      apply recoveryDupAck_floors h
      rintro hinside hrecovery
      apply (hfits hinside).inflate
      rw [inflates, hops]
      simpa using hrecovery
  | timeout flight =>
      cases hout
      have hrecover : Floors inside { tcb with recover := tcb.sndMax } := ⟨h.cwnd, h.ssthresh⟩
      exact hrecover.ccTimeout flight

theorem congControl_floors (h : Floors inside tcb) (hfits : inside → Fits env tcb args)
    (hout : congControl env tcb args = some out) : Floors inside out.tcb := by
  unfold congControl at hout
  split at hout
  · rename_i hops
    exact tahoe_floors h hops hfits hout
  · rename_i hops
    exact reno_floors h hops hfits hout
  · rename_i hops
    exact newReno_floors h hops hfits hout
  · rename_i hops
    exact lstmReno_floors h hops hfits hout

/-- An event for congestion control: what it takes from outside, and the block as
the sender has moved it on since the event before. -/
structure Delivery where
  env : Env
  moved : Tcb
  args : CcEventArgs

/-- Between two events the sender leaves the variables of congestion control. -/
structure Moves (tcb moved : Tcb) : Prop where
  cwnd : moved.cwnd = tcb.cwnd
  ssthresh : moved.ssthresh = tcb.ssthresh
  recover : moved.recover = tcb.recover
  caState : moved.caState = tcb.caState
  ccOps : moved.ccOps = tcb.ccOps

theorem Moves.floors {moved : Tcb} (h : Moves tcb moved) (hfloors : Floors inside tcb) :
    Floors inside moved :=
  ⟨h.cwnd ▸ hfloors.cwnd, h.ssthresh ▸ hfloors.ssthresh⟩

/-- The sequences of events that begin with `TCP_CC_EVENT_INIT`. -/
def congestion (ops : TcpCongestionOps) : TransitionSystem Tcb Delivery where
  init tcb :=
    ∃ env start log, start.ccOps = ops ∧ congControl env start .init = some ⟨tcb, log⟩
  step tcb d tcb' :=
    Moves tcb d.moved ∧ ∃ log, congControl d.env d.moved d.args = some ⟨tcb', log⟩

theorem reached_floors {ops : TcpCongestionOps} {ok : Tcb → Delivery → Prop}
    (hok : inside → ∀ tcb d, ok tcb d → Fits d.env d.moved d.args)
    (h : ReachedBy (congestion ops) ok tcb) : Floors inside tcb := by
  apply h.invariant
  · rintro tcb ⟨env, start, log, -, hout⟩
    obtain ⟨recover, hinit⟩ := congControl_init env start
    rw [hinit] at hout
    cases hout
    exact floors_ccInit start recover
  · rintro tcb d tcb' - hfloors hstep ⟨hmoves, log, hout⟩
    exact congControl_floors (hmoves.floors hfloors) (fun hinside => hok hinside tcb d hstep) hout

/-- The window never falls below a segment nor the threshold below two. -/
theorem window_floors {ops : TcpCongestionOps}
    (h : ReachedBy (congestion ops) (fun _ d => Fits d.env d.moved d.args) tcb) :
    mss.toNat ≤ tcb.cwnd.toNat ∧ 2 * mss.toNat ≤ tcb.ssthresh.toNat := by
  have hfloors : Floors True tcb := reached_floors (fun _ _ _ hfits => hfits) h
  exact ⟨hfloors.cwnd trivial, hfloors.ssthresh⟩

/-- A socket under New Reno after `TCP_CC_EVENT_INIT` and `count` ACKs of a full
segment each. -/
def slowStarted (count : Nat) : Tcb :=
  { utcpSocket with
    cwnd := BitVec.ofNat 32 (4200 + count * mss.toNat)
    ssthresh := 0xFFFFFFFF }

/-- One more of these ACKs, while nothing else changes. -/
def fullAck (tcb : Tcb) : Delivery := ⟨.still 0, tcb, .ack mss 0⟩

theorem slowStarted_init : (congestion .newReno).init (slowStarted 0) :=
  ⟨.still 0, utcpSocket, [], rfl, rfl⟩

theorem congControl_fullAck {count : Nat} (hlow : 4200 + count * mss.toNat < 0xFFFFFFFF) :
    congControl (.still 0) (slowStarted count) (.ack mss 0) =
      some ⟨slowStarted (count + 1), []⟩ := by
  have hcwnd : (slowStarted count).cwnd < (slowStarted count).ssthresh := by
    show (BitVec.ofNat 32 (4200 + count * mss.toNat)).toNat < (0xFFFFFFFF : U32).toNat
    rw [BitVec.toNat_ofNat]
    exact (Nat.mod_le _ _).trans_lt hlow
  have hincrease : aimdIncrease (slowStarted count) mss = mss.toNat := by
    rw [aimdIncrease, if_pos hcwnd, Nat.min_self]
  have haimd : ccAimd (slowStarted count) mss = some (slowStarted (count + 1)) := by
    rw [ccAimd_eq mss (.inl (show 0 < (0xFFFFFFFF : U32) by decide)), grown, hincrease]
    simp only [slowStarted, Nat.succ_mul, ← Nat.add_assoc, BitVec.ofNat_add]
    rfl
  show (ccAimd (slowStarted count) mss).bind (fun tcb => some (Out.mk tcb [])) = _
  rw [haimd]
  rfl

theorem slowStarted_reached {ok : Tcb → Delivery → Prop} (count : Nat)
    (hlow : 4200 + count * mss.toNat < 0xFFFFFFFF)
    (hok : ∀ n < count, ok (slowStarted n) (fullAck (slowStarted n))) :
    ReachedBy (congestion .newReno) ok (slowStarted count) := by
  induction count with
  | zero => exact .init slowStarted_init
  | succ count ih =>
      have hlow' : 4200 + count * mss.toNat < 0xFFFFFFFF := by
        rw [Nat.succ_mul] at hlow
        omega
      refine .step (a := fullAck (slowStarted count)) (ih hlow' fun n hn => hok n (by omega))
        (hok count (by omega)) ⟨⟨rfl, rfl, rfl, rfl, rfl⟩, [], ?_⟩
      exact congControl_fullAck hlow'

/-- Ten segments are in flight after the first ACK. -/
def outstanding : Tcb := { slowStarted 1 with sndUna := 1401, sndNxt := 15401, sndMax := 15401 }

/-- Half the flight and three segments, after the third duplicate ACK. -/
def retransmitted : Tcb :=
  { outstanding with ssthresh := 7000, recover := 15401, caState := .recovery, cwnd := 11200 }

/-- The ACK of nine of the ten segments leaves a window of two. -/
def partlyAcked : Tcb := { retransmitted with sndUna := 14001, cwnd := 2800 }

/-- The window and the threshold at their floors, after the timeout that follows. -/
def timedOut : Tcb := { partlyAcked with ssthresh := 2800, cwnd := 1400, caState := .loss }

theorem timedOut_reached :
    ReachedBy (congestion .newReno) (fun _ d => Fits d.env d.moved d.args) timedOut := by
  have hacked : ReachedBy (congestion .newReno) (fun _ d => Fits d.env d.moved d.args)
      (slowStarted 1) := by
    apply slowStarted_reached 1 (by decide)
    rintro n hn
    obtain rfl : n = 0 := by omega
    decide
  have hrecovery := hacked.step (a := ⟨.still 0, outstanding, .dupAck 3⟩) (by decide)
    (show (congestion .newReno).step _ _ retransmitted from ⟨⟨rfl, rfl, rfl, rfl, rfl⟩, _, rfl⟩)
  have hpartial := hrecovery.step
    (a := ⟨.still 0, { retransmitted with sndUna := 14001 }, .ack 12600 0⟩) (by decide)
    (show (congestion .newReno).step _ _ partlyAcked from ⟨⟨rfl, rfl, rfl, rfl, rfl⟩, _, rfl⟩)
  exact hpartial.step (a := ⟨.still 0, partlyAcked, .timeout 1400⟩) (by decide)
    ⟨⟨rfl, rfl, rfl, rfl, rfl⟩, _, rfl⟩

theorem window_floors_timedOut :
    mss.toNat ≤ timedOut.cwnd.toNat ∧ 2 * mss.toNat ≤ timedOut.ssthresh.toNat :=
  window_floors timedOut_reached

theorem outputTrace_ccOps {log : List Event} (h : Trace Steps.OutputStep tcb log tcb') :
    tcb'.ccOps = tcb.ccOps := by
  induction h with
  | nil tcb => rfl
  | cons hstep _ ih =>
      rw [ih]
      cases hstep with
      | advance timeUs newSynFin hsyn hadvance =>
          obtain ⟨_, _, _, heq⟩ := advanceSndNxt_eq _ (outputLength _) newSynFin
          rw [heq]
      | _ => rfl

theorem congControl_ccOps (h : congControl env tcb args = some out) :
    out.tcb.ccOps = tcb.ccOps := by
  by_cases hargs : ∃ flight, args = .timeout flight
  · obtain ⟨flight, rfl⟩ := hargs
    obtain ⟨recover, htimeout⟩ := congControl_timeout env tcb flight
    rw [htimeout] at h
    cases h
    rw [ccTimeout]
  · cases congControl_reaction (not_exists.mp hargs) h with
    | change => rfl
    | retransmit => rfl
    | burst cwnd =>
        have hsame := outputTrace_ccOps (utcpOutput_trace env.burst { tcb with cwnd })
        exact hsame

theorem reached_ccOps {ops : TcpCongestionOps} (h : Reachable (congestion ops) tcb) :
    tcb.ccOps = ops := by
  apply h.invariant
  · rintro tcb ⟨env, start, log, hops, hout⟩
    exact (congControl_ccOps hout).trans hops
  · rintro tcb d tcb' - hops - ⟨hmoves, log, hout⟩
    exact (congControl_ccOps hout).trans (hmoves.ccOps.trans hops)

/-- What New Reno means an event to do to the window: an ACK outside recovery
enlarges it, a duplicate ACK in recovery adds a segment, and an ACK for a part of
the window adds a segment to what it leaves of it. -/
structure Grows (d : Delivery) : Prop where
  ack : ∀ acked rttUs, d.args = .ack acked rttUs → d.moved.caState ≠ .recovery →
    ∃ out, congControl d.env d.moved d.args = some out ∧ d.moved.cwnd < out.tcb.cwnd
  dupAck : ∀ totalDups, d.args = .dupAck totalDups → d.moved.caState = .recovery →
    3 < totalDups → ∃ out, congControl d.env d.moved d.args = some out ∧
      out.tcb.cwnd.toNat = d.moved.cwnd.toNat + mss.toNat
  deflate : ∀ acked rttUs, d.args = .ack acked rttUs → d.moved.caState = .recovery →
    seqGeq d.moved.sndUna d.moved.recover = false →
    ∃ out, congControl d.env d.moved d.args = some out ∧
      out.tcb.cwnd.toNat = (deflated d.moved acked).toNat + mss.toNat

theorem toNat_add_mss_iff (a : U32) :
    (a + mss).toNat = a.toNat + mss.toNat ↔ a.toNat + mss.toNat < 2 ^ 32 := by
  constructor
  · rintro h
    rw [← h]
    exact BitVec.isLt _
  · exact Accounting.toNat_add_of_lt

theorem lt_add_iff {a : U32} {n : Nat} (hn : n ≤ mss.toNat) :
    a < a + BitVec.ofNat 32 n ↔ 0 < n ∧ a.toNat + n < 2 ^ 32 := by
  rw [BitVec.lt_def, BitVec.toNat_add, BitVec.toNat_ofNat]
  rw [mss_toNat] at hn
  have ha := a.isLt
  omega

theorem aimdIncrease_pos_iff (tcb : Tcb) (acked : U32) :
    0 < aimdIncrease tcb acked ↔ (tcb.cwnd < tcb.ssthresh → 0 < acked) := by
  rw [aimdIncrease]
  split
  · rename_i hslow
    rw [Nat.lt_min, BitVec.lt_def]
    exact ⟨fun h _ => h.1, fun h => ⟨h hslow, by decide⟩⟩
  · rename_i hlarge
    have hone : 0 < max (share tcb acked) 1 := Nat.lt_of_lt_of_le Nat.one_pos (le_max_right _ _)
    exact ⟨fun _ hslow => absurd hslow hlarge, fun _ => hone⟩

theorem newReno_ack (rttUs : U32) (hops : tcb.ccOps = .newReno) (hpos : 0 < tcb.ssthresh)
    (hstate : tcb.caState ≠ .recovery) :
    congControl env tcb (.ack acked rttUs) = some ⟨grown tcb acked, []⟩ := by
  simp only [congControl, hops, newRenoCongControl, if_neg hstate, ccAimd_eq acked (.inl hpos)]
  rfl

theorem newReno_recoveryAck (rttUs : U32) (hops : tcb.ccOps = .newReno)
    (hstate : tcb.caState = .recovery) :
    congControl env tcb (.ack acked rttUs) = some (recoveryAck env tcb acked) := by
  simp only [congControl, hops, newRenoCongControl, if_pos hstate]

theorem newReno_inflate {totalDups : U32} (hops : tcb.ccOps = .newReno)
    (hstate : tcb.caState = .recovery) (hdups : 3 < totalDups) :
    congControl env tcb (.dupAck totalDups) =
      some (utcpOutput env.burst { tcb with cwnd := tcb.cwnd + mss }) := by
  have hne : totalDups ≠ 3 := by
    rintro rfl
    exact absurd hdups (by decide)
  simp only [congControl, hops, newRenoCongControl, recoveryDupAck, if_neg hne]
  rw [if_pos ⟨hdups, hstate⟩]

theorem cwnd_burst (readings : Nat → Reading) (tcb : Tcb) (cwnd : U32) :
    (utcpOutput readings { tcb with cwnd }).tcb.cwnd = cwnd :=
  (outputTrace_sameWindow (utcpOutput_trace readings { tcb with cwnd })).cwnd

theorem grows_recoveryAck (rttUs : U32) (hops : tcb.ccOps = .newReno)
    (hstate : tcb.caState = .recovery) :
    Grows ⟨env, tcb, .ack acked rttUs⟩ ↔ Fits env tcb (.ack acked rttUs) := by
  have hout : congControl env tcb (.ack acked rttUs) = some (recoveryAck env tcb acked) :=
    newReno_recoveryAck rttUs hops hstate
  have hfits : Fits env tcb (.ack acked rttUs) ↔
      (seqGeq tcb.sndUna tcb.recover = false →
        (deflated tcb acked).toNat + mss.toNat < 2 ^ 32) := by
    simp only [Fits, addition, hops, if_pos hstate, recoveryAddition]
    cases seqGeq tcb.sndUna tcb.recover with
    | false => simp
    | true => simpa using tcb.ssthresh.isLt
  have hcwnd : seqGeq tcb.sndUna tcb.recover = false →
      (recoveryAck env tcb acked).tcb.cwnd = deflated tcb acked + mss := by
    rintro hpart
    rw [recoveryAck, if_neg (by simp [hpart])]
    rfl
  rw [hfits]
  constructor
  · rintro h hpart
    obtain ⟨out, hout', hgrows⟩ := h.deflate acked rttUs rfl hstate hpart
    obtain rfl := Option.some.inj (hout.symm.trans hout')
    rw [hcwnd hpart] at hgrows
    exact (toNat_add_mss_iff _).mp hgrows
  · rintro hfits
    constructor
    · rintro _ _ - hother
      exact absurd hstate hother
    · rintro _ ⟨⟩
    · rintro _ _ ⟨⟩ - hpart
      refine ⟨_, hout, ?_⟩
      rw [hcwnd hpart]
      exact (toNat_add_mss_iff _).mpr (hfits hpart)

theorem grows_ack (rttUs : U32) (hops : tcb.ccOps = .newReno) (hpos : 0 < tcb.ssthresh)
    (hstate : tcb.caState ≠ .recovery) :
    Grows ⟨env, tcb, .ack acked rttUs⟩ ↔
      Fits env tcb (.ack acked rttUs) ∧ (tcb.cwnd < tcb.ssthresh → 0 < acked) := by
  have hout : congControl env tcb (.ack acked rttUs) = some ⟨grown tcb acked, []⟩ :=
    newReno_ack rttUs hops hpos hstate
  have hfits : Fits env tcb (.ack acked rttUs) ↔
      tcb.cwnd.toNat + aimdIncrease tcb acked < 2 ^ 32 := by
    simp only [Fits, addition, hops, if_neg hstate]
  rw [hfits, ← aimdIncrease_pos_iff, and_comm, ← lt_add_iff (aimdIncrease_le tcb acked)]
  constructor
  · rintro h
    obtain ⟨out, hout', hgrows⟩ := h.ack acked rttUs rfl hstate
    obtain rfl := Option.some.inj (hout.symm.trans hout')
    exact hgrows
  · rintro hgrows
    constructor
    · rintro _ _ ⟨⟩ -
      exact ⟨_, hout, hgrows⟩
    · rintro _ ⟨⟩
    · rintro _ _ - hrecovery
      exact absurd hrecovery hstate

theorem inflates_iff {totalDups : U32} (hops : tcb.ccOps = .newReno) :
    inflates tcb totalDups ↔ 3 < totalDups ∧ tcb.caState = .recovery := by
  rw [inflates, hops]
  simp

theorem grows_dupAck {totalDups : U32} (hops : tcb.ccOps = .newReno) :
    Grows ⟨env, tcb, .dupAck totalDups⟩ ↔ Fits env tcb (.dupAck totalDups) := by
  constructor
  · rintro h
    show tcb.cwnd.toNat + (if inflates tcb totalDups then mss.toNat else 0) < 2 ^ 32
    split
    · rename_i hinflates
      obtain ⟨hdups, hstate⟩ := (inflates_iff hops).mp hinflates
      obtain ⟨out, hout, hgrows⟩ := h.dupAck totalDups rfl hstate hdups
      obtain rfl := Option.some.inj ((newReno_inflate hops hstate hdups).symm.trans hout)
      rw [cwnd_burst] at hgrows
      exact (toNat_add_mss_iff _).mp hgrows
    · exact tcb.cwnd.isLt
  · rintro hfits
    constructor
    · rintro _ _ ⟨⟩
    · rintro _ ⟨⟩ hstate hdups
      refine ⟨_, newReno_inflate hops hstate hdups, ?_⟩
      rw [cwnd_burst]
      exact (toNat_add_mss_iff _).mpr (hfits.inflate ((inflates_iff hops).mpr ⟨hdups, hstate⟩))
    · rintro _ _ ⟨⟩

theorem grows_other {d : Delivery} (hack : ∀ acked rttUs, d.args ≠ .ack acked rttUs)
    (hdup : ∀ totalDups, d.args ≠ .dupAck totalDups) : Grows d :=
  ⟨fun acked rttUs h => absurd h (hack acked rttUs), fun totalDups h => absurd h (hdup totalDups),
    fun acked rttUs h => absurd h (hack acked rttUs)⟩

/-- New Reno treats the window as it means to exactly where nothing wraps, and
an ACK in slow start acknowledges something. -/
theorem grows_iff {d : Delivery} (hops : d.moved.ccOps = .newReno) (hpos : 0 < d.moved.ssthresh) :
    Grows d ↔
      Fits d.env d.moved d.args ∧
        ∀ acked rttUs, d.args = .ack acked rttUs → d.moved.caState ≠ .recovery →
          d.moved.cwnd < d.moved.ssthresh → 0 < acked := by
  obtain ⟨env, tcb, args⟩ := d
  dsimp only at hops hpos ⊢
  cases args with
  | init =>
      refine ⟨fun _ => ⟨tcb.cwnd.isLt, ?_⟩, fun _ => grows_other ?_ ?_⟩
      · rintro _ _ ⟨⟩
      · rintro _ _ ⟨⟩
      · rintro _ ⟨⟩
  | ack acked rttUs =>
      by_cases hstate : tcb.caState = .recovery
      · rw [grows_recoveryAck rttUs hops hstate]
        refine ⟨fun hfits => ⟨hfits, ?_⟩, fun h => h.1⟩
        rintro _ _ - hother
        exact absurd hstate hother
      · rw [grows_ack rttUs hops hpos hstate]
        constructor
        · rintro ⟨hfits, hpositive⟩
          refine ⟨hfits, ?_⟩
          rintro _ _ ⟨⟩ -
          exact hpositive
        · rintro ⟨hfits, hpositive⟩
          exact ⟨hfits, hpositive acked rttUs rfl hstate⟩
  | dupAck totalDups =>
      rw [grows_dupAck hops]
      refine ⟨fun hfits => ⟨hfits, ?_⟩, fun h => h.1⟩
      rintro _ _ ⟨⟩
  | timeout flight =>
      refine ⟨fun _ => ⟨tcb.cwnd.isLt, ?_⟩, fun _ => grows_other ?_ ?_⟩
      · rintro _ _ ⟨⟩
      · rintro _ _ ⟨⟩
      · rintro _ ⟨⟩

theorem deflated_le (tcb : Tcb) (acked : U32) :
    (deflated tcb acked).toNat ≤ max mss.toNat tcb.cwnd.toNat := by
  rw [deflated]
  split
  · exact le_max_left _ _
  · rename_i hacked
    rw [ge_iff_le, BitVec.not_le] at hacked
    rw [BitVec.toNat_sub_of_le (BitVec.le_of_lt hacked)]
    exact (Nat.sub_le _ _).trans (le_max_right _ _)

/-- The largest window a segment can still be added to: 4294965895 bytes. -/
def windowCap : Nat := 2 ^ 32 - 1 - mss.toNat

theorem fits_of_le (hops : tcb.ccOps = .newReno) (hcap : tcb.cwnd.toNat ≤ windowCap)
    (args : CcEventArgs) : Fits env tcb args := by
  rw [windowCap] at hcap
  have hwindow := tcb.cwnd.isLt
  cases args with
  | init => exact hwindow
  | timeout flight => exact hwindow
  | dupAck totalDups =>
      show tcb.cwnd.toNat + (if inflates tcb totalDups then mss.toNat else 0) < 2 ^ 32
      rw [mss_toNat] at hcap ⊢
      split <;> omega
  | ack acked rttUs =>
      have hincrease : aimdIncrease tcb acked ≤ mss.toNat := aimdIncrease_le tcb acked
      have hdeflated := deflated_le tcb acked
      simp only [Fits, addition, hops]
      rw [mss_toNat] at hcap hincrease hdeflated
      split
      · rw [recoveryAddition, mss_toNat]
        split
        · exact tcb.ssthresh.isLt
        · show (deflated tcb acked).toNat + 1400 < 2 ^ 32
          omega
      · show tcb.cwnd.toNat + aimdIncrease tcb acked < 2 ^ 32
        omega

theorem aimdIncrease_window (hcwnd : mss.toNat ≤ tcb.cwnd.toNat) :
    aimdIncrease tcb tcb.cwnd = mss.toNat := by
  have hpos : 0 < tcb.cwnd.toNat := Nat.lt_of_lt_of_le (by decide) hcwnd
  rw [aimdIncrease]
  split
  · exact Nat.min_eq_right hcwnd
  · rw [share, Nat.min_self, Nat.mul_div_cancel_left _ hpos]
    rfl

/-- An event that takes a window beyond the cap past the end of its type: an ACK of a
whole window, or a further duplicate ACK in recovery. -/
def lastStraw (tcb : Tcb) : CcEventArgs :=
  if tcb.caState = .recovery then .dupAck 4 else .ack tcb.cwnd 0

theorem not_fits_lastStraw (hops : tcb.ccOps = .newReno) (hcap : windowCap < tcb.cwnd.toNat) :
    ¬ Fits env tcb (lastStraw tcb) := by
  have hcwnd : mss.toNat ≤ tcb.cwnd.toNat :=
    (show mss.toNat ≤ windowCap by decide).trans (Nat.le_of_lt hcap)
  rw [windowCap] at hcap
  rw [lastStraw]
  split
  · rename_i hstate
    rintro hfits
    have hroom := hfits.inflate ((inflates_iff hops).mpr ⟨by decide, hstate⟩)
    rw [mss_toNat] at hroom hcap
    omega
  · rename_i hstate
    simp only [Fits, addition, hops, if_neg hstate, aimdIncrease_window hcwnd]
    rw [mss_toNat] at hcap ⊢
    omega

/-- An ACK event acknowledges at least a byte. -/
def Acknowledges (d : Delivery) : Prop := ∀ acked rttUs, d.args = .ack acked rttUs → 0 < acked

theorem lastStraw_acknowledges (hcap : windowCap < tcb.cwnd.toNat) :
    Acknowledges ⟨env, tcb, lastStraw tcb⟩ := by
  rintro acked rttUs hargs
  dsimp only [lastStraw] at hargs
  split at hargs
  · cases hargs
  · cases hargs
    exact Nat.lt_of_le_of_lt (Nat.zero_le _) hcap

theorem moves_refl (tcb : Tcb) : Moves tcb tcb := ⟨rfl, rfl, rfl, rfl, rfl⟩

/-- After any sequence of events, New Reno treats the window as it means to with
every event that can come next exactly where the window is at most the cap. -/
theorem growth_iff (h : Reachable (congestion .newReno) tcb) :
    (∀ d, Moves tcb d.moved → Acknowledges d → Grows d) ↔ tcb.cwnd.toNat ≤ windowCap := by
  have hops : tcb.ccOps = .newReno := reached_ccOps h
  have hfloors : Floors False tcb := reached_floors (fun hfalse => hfalse.elim) h
  have hpos : 0 < tcb.ssthresh := by
    rw [BitVec.lt_def]
    exact Nat.lt_of_lt_of_le (by decide) hfloors.ssthresh
  constructor
  · rintro hgrows
    by_contra hcap
    have hbeyond : windowCap < tcb.cwnd.toNat := Nat.lt_of_not_le hcap
    have hlast : Grows ⟨.still 0, tcb, lastStraw tcb⟩ :=
      hgrows _ (moves_refl tcb) (lastStraw_acknowledges hbeyond)
    exact not_fits_lastStraw hops hbeyond ((grows_iff hops hpos).mp hlast).1
  · rintro hcap d hmoves hacknowledges
    have hmoved : d.moved.ccOps = .newReno := hmoves.ccOps.trans hops
    apply (grows_iff hmoved (hmoves.ssthresh ▸ hpos)).mpr
    refine ⟨fits_of_le hmoved (hmoves.cwnd ▸ hcap) d.args, ?_⟩
    rintro acked rttUs hargs - -
    exact hacknowledges acked rttUs hargs

/-- The last window of slow start below the cap: whatever comes next, it grows. -/
theorem growth_slowStart :
    (slowStarted 3067829).cwnd = 4294964800 ∧
      ∀ d, Moves (slowStarted 3067829) d.moved → Acknowledges d → Grows d := by
  have hreached : Reachable (congestion .newReno) (slowStarted 3067829) :=
    slowStarted_reached 3067829 (by decide) fun _ _ => trivial
  exact ⟨by decide, (growth_iff hreached).mpr (by decide)⟩

/-- After 3067830 ACKs of a full segment each and no loss, the next one takes the
window from 4294966200 bytes to 304. -/
theorem growth_wraps :
    Reachable (congestion .newReno) (slowStarted 3067830) ∧
      (slowStarted 3067830).ssthresh = 0xFFFFFFFF ∧
      (slowStarted 3067830).cwnd = 4294966200 ∧
      (congControl (.still 0) (slowStarted 3067830) (.ack mss 0)).map (·.tcb.cwnd) = some 304 ∧
      ¬ Grows (fullAck (slowStarted 3067830)) := by
  have hreached : Reachable (congestion .newReno) (slowStarted 3067830) :=
    slowStarted_reached 3067830 (by decide) fun _ _ => trivial
  refine ⟨hreached, rfl, by decide, ?_, ?_⟩
  · rw [congControl_fullAck (by decide)]
    decide
  · rw [grows_iff rfl (show 0 < (0xFFFFFFFF : U32) by decide)]
    rintro ⟨hfits, -⟩
    exact absurd hfits (by decide)

/-- How many ACKs have a share that rounds to nothing. -/
def roundedUp : Tcb → List U32 → Nat
  | _, [] => 0
  | tcb, acked :: acks => (if share tcb acked = 0 then 1 else 0) + roundedUp (grown tcb acked) acks

/-- No ACK makes the window wrap. -/
def AllFit : Tcb → List U32 → Prop
  | _, [] => True
  | tcb, acked :: acks =>
      tcb.cwnd.toNat + aimdIncrease tcb acked < 2 ^ 32 ∧ AllFit (grown tcb acked) acks

/-- The bytes some ACKs acknowledge. -/
def ackedBytes (acks : List U32) : Nat := (acks.map BitVec.toNat).sum

theorem ackedBytes_cons (acked : U32) (acks : List U32) :
    ackedBytes (acked :: acks) = acked.toNat + ackedBytes acks := by
  rw [ackedBytes, List.map_cons, List.sum_cons]
  rfl

theorem share_le_scaled {start : Nat} (acked : U32) (hstart : 0 < start)
    (hle : start ≤ tcb.cwnd.toNat) : share tcb acked ≤ acked.toNat * mss.toNat / start :=
  calc share tcb acked
      ≤ acked.toNat * mss.toNat / tcb.cwnd.toNat :=
        Nat.div_le_div_right (Nat.mul_le_mul_right _ (Nat.min_le_left _ _))
    _ ≤ acked.toNat * mss.toNat / start := Nat.div_le_div_left hle hstart

theorem aimdIncrease_avoidance (acked : U32) (hlarge : tcb.ssthresh ≤ tcb.cwnd) :
    aimdIncrease tcb acked ≤ share tcb acked + if share tcb acked = 0 then 1 else 0 := by
  rw [aimdIncrease, if_neg (BitVec.not_lt.mpr hlarge)]
  split <;> omega

/-- The shares of successive ACKs add up to at most the share of all their bytes
in the window at the start: the window only grows. -/
theorem cwnd_le_of_acks {start : Nat} (hstart : 0 < start) (acks : List U32) :
    ∀ {tcb : Tcb}, start ≤ tcb.cwnd.toNat → tcb.ssthresh.toNat ≤ start → AllFit tcb acks →
      ∃ tcb', acks.foldlM ccAimd tcb = some tcb' ∧
        tcb'.cwnd.toNat ≤
          tcb.cwnd.toNat + ackedBytes acks * mss.toNat / start + roundedUp tcb acks := by
  induction acks with
  | nil =>
      intro tcb hle hthresh hfits
      exact ⟨tcb, rfl, Nat.le_add_right _ _ |>.trans (Nat.le_add_right _ _)⟩
  | cons acked acks ih =>
      rintro tcb hle hthresh ⟨hfit, hfits⟩
      have hcwnd : (grown tcb acked).cwnd.toNat = tcb.cwnd.toNat + aimdIncrease tcb acked :=
        toNat_add_ofNat hfit
      have hgrown : start ≤ (grown tcb acked).cwnd.toNat := by
        rw [hcwnd]
        exact hle.trans (Nat.le_add_right _ _)
      have hincrease : aimdIncrease tcb acked ≤ _ :=
        aimdIncrease_avoidance acked (hthresh.trans hle)
      have hshare : share tcb acked ≤ _ := share_le_scaled acked hstart hle
      have hne : tcb.cwnd ≠ 0 := by
        rintro hzero
        rw [hzero] at hle
        exact absurd hle (Nat.not_le.mpr hstart)
      obtain ⟨tcb', hrun, hbound⟩ := 
        ih hgrown (show (grown tcb acked).ssthresh.toNat ≤ start from hthresh) hfits
      refine ⟨tcb', ?_, ?_⟩
      · rw [List.foldlM_cons, ccAimd_eq acked (.inr hne)]
        exact hrun
      · have hsplit : acked.toNat * mss.toNat / start + ackedBytes acks * mss.toNat / start ≤
            ackedBytes (acked :: acks) * mss.toNat / start := by
          rw [ackedBytes_cons, Nat.add_mul]
          exact Nat.div_add_div_le_add_div
        rw [roundedUp]
        omega

/-- The ACKs of one window enlarge it by at most a segment, and a byte for each
that is too small to count. -/
theorem window_of_acks {acks : List U32} (hcwnd : mss ≤ tcb.cwnd)
    (hthresh : tcb.ssthresh ≤ tcb.cwnd) (hbytes : ackedBytes acks = tcb.cwnd.toNat)
    (hfits : AllFit tcb acks) :
    ∃ tcb', acks.foldlM ccAimd tcb = some tcb' ∧
      tcb'.cwnd.toNat ≤ tcb.cwnd.toNat + mss.toNat + roundedUp tcb acks := by
  have hpos : 0 < tcb.cwnd.toNat := Nat.lt_of_lt_of_le (by decide) hcwnd
  obtain ⟨tcb', hrun, hbound⟩ := cwnd_le_of_acks hpos acks le_rfl hthresh hfits
  rw [hbytes, Nat.mul_div_cancel_left _ hpos] at hbound
  exact ⟨tcb', hrun, hbound⟩

/-- A block in congestion avoidance with a window of two segments. -/
def avoiding : Tcb := { utcpSocket with cwnd := 2800, ssthresh := 2800 }

theorem window_of_acks_halves :
    ∃ tcb', [1400, 1400].foldlM ccAimd avoiding = some tcb' ∧
      tcb'.cwnd.toNat ≤ avoiding.cwnd.toNat + mss.toNat + roundedUp avoiding [1400, 1400] := by
  apply window_of_acks
  · decide
  · decide
  · decide
  · exact ⟨by decide, by decide, trivial⟩

/-- ACKs of one byte each double the window. -/
theorem window_of_acks_bytewise :
    ackedBytes (List.replicate 2800 1) = avoiding.cwnd.toNat ∧
      ((List.replicate 2800 1).foldlM ccAimd avoiding).map (·.cwnd.toNat) =
        some (avoiding.cwnd.toNat + 2 * mss.toNat) := by
  constructor
  · decide +kernel
  · decide +kernel

end Utcp.WindowGrowth
