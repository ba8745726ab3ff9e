import Mathlib.Data.List.Induction
import Utcp.Api
import Utcp.Library.SerialNumbers
import Utcp.Library.Smoothing

/-!
The round-trip estimator over any sequence of samples.
-/

namespace Utcp.Estimator

open Smoothing
open SerialNumbers
open Utcp.Tcp
open Utcp.Timers
open Utcp.Api

variable {tcb : Tcb} {rttUs : U32}

/-- A sample in ticks, at least one. -/
def sampleTicks (rttUs : U32) : Nat := max 1 (rttUs.toNat / 10000)

/-- The longest sample there is, in ticks. -/
def longestTicks : Nat := 429496

theorem sampleTicks_pos (rttUs : U32) : 1 ≤ sampleTicks rttUs := Nat.le_max_left ..

theorem sampleTicks_le (rttUs : U32) : sampleTicks rttUs ≤ longestTicks := by
  have hword := rttUs.isLt
  rw [sampleTicks, longestTicks]
  omega

theorem rttTicks_eq (rttUs : U32) :
    (if (rttUs / tickUs).toInt < 1 then 1 else (rttUs / tickUs).toInt) = (sampleTicks rttUs : Int) := by
  have hword := rttUs.isLt
  have hdiv : (rttUs / tickUs).toNat = rttUs.toNat / 10000 := BitVec.toNat_udiv
  have hint : (rttUs / tickUs).toInt = ((rttUs.toNat / 10000 : Nat) : Int) := by
    rw [BitVec.toInt_eq_toNat_cond, if_pos (by omega), hdiv]
  rw [hint, sampleTicks]
  split <;> omega

theorem shifted_toInt (x : U32) {k : Nat} (hk : 0 < k) :
    (x >>> k).toInt = ((x.toNat / 2 ^ k : Nat) : Int) := by
  have hshift : (x >>> k).toNat = x.toNat / 2 ^ k := by
    rw [BitVec.toNat_ushiftRight, Nat.shiftRight_eq_div_pow]
  have hword := x.isLt
  have hpow : 2 ^ 1 ≤ 2 ^ k := Nat.pow_le_pow_right (by omega) hk
  have hhalf : x.toNat / 2 ^ k ≤ x.toNat / 2 := Nat.div_le_div_left hpow (by omega)
  rw [BitVec.toInt_eq_toNat_cond, hshift, if_pos (by omega)]

theorem xmitTimer_estimates (tcb : Tcb) (rttUs : U32) :
    (utcpXmitTimer tcb rttUs).tSrtt = (updateEstimates tcb (sampleTicks rttUs)).tSrtt ∧
      (utcpXmitTimer tcb rttUs).tRttvar = (updateEstimates tcb (sampleTicks rttUs)).tRttvar ∧
      (utcpXmitTimer tcb rttUs).tRxtcur =
        rxtcurOf (utcpXmitTimer tcb rttUs).tSrtt (utcpXmitTimer tcb rttUs).tRttvar := by
  simp only [utcpXmitTimer]
  rw [rttTicks_eq]
  exact ⟨rfl, rfl, trivial⟩

theorem xmitTimer_first (hfirst : tcb.tSrtt = 0) :
    (utcpXmitTimer tcb rttUs).tSrtt.toNat = 8 * sampleTicks rttUs ∧
      (utcpXmitTimer tcb rttUs).tRttvar.toNat = 2 * sampleTicks rttUs := by
  obtain ⟨hsrtt, hrttvar, -⟩ := xmitTimer_estimates tcb rttUs
  have hle := sampleTicks_le rttUs
  unfold longestTicks at hle
  rw [hsrtt, hrttvar, updateEstimates, if_pos hfirst]
  constructor
  · rw [BitVec.toNat_ofInt]
    omega
  · rw [BitVec.toNat_ofInt]
    omega

/-- The distance of a sample from the smoothed round trip. -/
def deviation (tcb : Tcb) (rttUs : U32) : Nat :=
  ((sampleTicks rttUs : Int) - (tcb.tSrtt.toNat / 8 : Nat)).natAbs

theorem xmitTimer_next (hnext : tcb.tSrtt ≠ 0) :
    (utcpXmitTimer tcb rttUs).tSrtt.toNat = smooth 8 tcb.tSrtt.toNat (sampleTicks rttUs) ∧
      (utcpXmitTimer tcb rttUs).tRttvar.toNat =
        smooth 4 tcb.tRttvar.toNat (deviation tcb rttUs) := by
  obtain ⟨hsrtt', hrttvar', -⟩ := xmitTimer_estimates tcb rttUs
  have hle := sampleTicks_le rttUs
  have hshift8 : (tcb.tSrtt >>> 3).toInt = ((tcb.tSrtt.toNat / 8 : Nat) : Int) :=
    shifted_toInt tcb.tSrtt (by omega)
  have hshift4 : (tcb.tRttvar >>> 2).toInt = ((tcb.tRttvar.toNat / 4 : Nat) : Int) :=
    shifted_toInt tcb.tRttvar (by omega)
  have habs : ∀ d : Int, (if d < 0 then -d else d) = (d.natAbs : Int) := by
    intro d
    split <;> omega
  have hword := tcb.tSrtt.isLt
  have hword' := tcb.tRttvar.isLt
  unfold longestTicks at hle
  rw [hsrtt', hrttvar', updateEstimates, if_neg hnext, deviation]
  dsimp only
  rw [hshift8, hshift4, habs]
  constructor
  · refine toNat_add_ofInt (smooth_eq ..) ?_
    rw [smooth]
    omega
  · refine toNat_add_ofInt (smooth_eq ..) ?_
    rw [smooth]
    omega

/-- The estimates after some samples, all between `lo` and `hi` ticks. -/
structure Estimates (lo hi : Nat) (tcb : Tcb) : Prop where
  lower : lo ≤ tcb.tSrtt.toNat / 8
  upper : tcb.tSrtt.toNat / 8 ≤ hi
  variance : tcb.tRttvar.toNat / 4 ≤ hi

theorem Estimates.first {lo hi : Nat} (hfirst : tcb.tSrtt = 0) (hlo : lo ≤ sampleTicks rttUs)
    (hhi : sampleTicks rttUs ≤ hi) : Estimates lo hi (utcpXmitTimer tcb rttUs) := by
  obtain ⟨hsrtt, hrttvar⟩ := @xmitTimer_first tcb rttUs hfirst
  refine ⟨?_, ?_, ?_⟩ <;> omega

theorem Estimates.next {lo hi : Nat} (h : Estimates lo hi tcb) (hnext : tcb.tSrtt ≠ 0)
    (hlo : lo ≤ sampleTicks rttUs) (hhi : sampleTicks rttUs ≤ hi) :
    Estimates lo hi (utcpXmitTimer tcb rttUs) := by
  obtain ⟨hsrtt, hrttvar⟩ := @xmitTimer_next tcb rttUs hnext
  have hdeviation : deviation tcb rttUs ≤ hi := by
    have hupper := h.upper
    rw [deviation]
    omega
  constructor
  · rw [hsrtt]
    exact le_smooth_div (by omega) h.lower hlo
  · rw [hsrtt]
    exact smooth_div_le (by omega) h.upper hhi
  · rw [hrttvar]
    exact smooth_div_le (by omega) h.variance hdeviation

/-- The estimator's block after a sequence of samples. -/
def fed (samples : List U32) : Tcb := samples.foldl utcpXmitTimer utcpSocket

theorem fed_append (samples : List U32) (rttUs : U32) :
    fed (samples ++ [rttUs]) = utcpXmitTimer (fed samples) rttUs := by
  rw [fed, List.foldl_append]
  rfl

theorem fed_estimates {lo hi : Nat} (hlo : 1 ≤ lo) (samples : List U32) :
    ∀ rttUs : U32,
      (∀ r ∈ samples ++ [rttUs], lo ≤ sampleTicks r ∧ sampleTicks r ≤ hi) →
        Estimates lo hi (fed (samples ++ [rttUs])) := by
  induction samples using List.reverseRecOn with
  | nil =>
      intro rttUs hall
      obtain ⟨hlower, hupper⟩ := hall rttUs (by simp)
      exact .first rfl hlower hupper
  | append_singleton samples previous ih =>
      intro rttUs hall
      have hbefore : Estimates lo hi (fed (samples ++ [previous])) :=
        ih previous fun r hr => hall r (List.mem_append_left _ hr)
      obtain ⟨hlower, hupper⟩ := hall rttUs (by simp)
      have hne : (fed (samples ++ [previous])).tSrtt ≠ 0 := by
        intro hzero
        have hpos := hbefore.lower
        rw [hzero] at hpos
        exact absurd (Nat.le_trans hlo hpos) (by decide)
      rw [fed_append]
      exact hbefore.next hne hlower hupper

theorem fed_bounded (samples : List U32) (rttUs : U32) :
    Estimates 1 longestTicks (fed (samples ++ [rttUs])) :=
  fed_estimates (Nat.le_refl 1) samples rttUs
    fun r _ => ⟨sampleTicks_pos r, sampleTicks_le r⟩

theorem fed_ne_zero {samples : List U32} (h : samples ≠ []) : (fed samples).tSrtt ≠ 0 := by
  intro hzero
  have hpos := (fed_bounded samples.dropLast (samples.getLast h)).lower
  rw [List.dropLast_append_getLast, hzero] at hpos
  exact absurd hpos (by decide)

theorem rxtcurOf_bounds (tSrtt tRttvar : U32) :
    tcptvMin.toNat ≤ (rxtcurOf tSrtt tRttvar).toNat ∧
      (rxtcurOf tSrtt tRttvar).toNat ≤ tcptvRexmtmax.toNat := by
  simp only [rxtcurOf]
  split
  · exact ⟨Nat.le_refl _, by decide⟩
  · rename_i hmin
    split
    · exact ⟨by decide, Nat.le_refl _⟩
    · rename_i hmax
      exact ⟨Nat.le_of_not_lt hmin, Nat.le_of_not_lt hmax⟩

/-- A tick count in microseconds, as the loggers compute it. -/
def inMicroseconds (ticks : U32) : U32 := ticks * 10 * 1000

theorem inMicroseconds_toNat {ticks : U32} (h : ticks.toNat ≤ longestTicks) :
    (inMicroseconds ticks).toNat = ticks.toNat * 10 * 1000 := by
  unfold longestTicks at h
  have hten : (ticks * 10).toNat = ticks.toNat * 10 := by
    rw [BitVec.toNat_mul, Nat.mod_eq_of_lt]
    · rfl
    · show ticks.toNat * 10 < 2 ^ 32
      omega
  rw [inMicroseconds, BitVec.toNat_mul, hten, Nat.mod_eq_of_lt]
  · rfl
  · show ticks.toNat * 10 * 1000 < 2 ^ 32
    omega

/-- The last sample of any sequence moves the estimates as the integers would
move, and leaves them between the smallest and the largest sample. -/
theorem estimator_bounds (samples : List U32) (rttUs : U32) :
    let before := fed samples
    let after := fed (samples ++ [rttUs])
    (∀ lo hi, (∀ r ∈ samples ++ [rttUs], lo ≤ sampleTicks r ∧ sampleTicks r ≤ hi) →
        lo ≤ (after.tSrtt >>> 3).toNat ∧ (after.tSrtt >>> 3).toNat ≤ hi) ∧
      after.tSrtt ≠ 0 ∧
      (samples = [] → after.tSrtt.toNat = 8 * sampleTicks rttUs ∧
        after.tRttvar.toNat = 2 * sampleTicks rttUs) ∧
      (samples ≠ [] →
        let delta := (sampleTicks rttUs : Int) - (before.tSrtt >>> 3).toNat
        (after.tSrtt.toNat : Int) = before.tSrtt.toNat + delta ∧
          (after.tRttvar.toNat : Int) =
            before.tRttvar.toNat + ((delta.natAbs : Int) - (before.tRttvar >>> 2).toNat)) ∧
      ((after.tSrtt >>> 3) + after.tRttvar).toNat =
        (after.tSrtt >>> 3).toNat + after.tRttvar.toNat ∧
      tcptvMin.toNat ≤ after.tRxtcur.toNat ∧ after.tRxtcur.toNat ≤ tcptvRexmtmax.toNat ∧
      (inMicroseconds (after.tSrtt >>> 3)).toNat = (after.tSrtt >>> 3).toNat * 10 * 1000 ∧
      (inMicroseconds (after.tRttvar >>> 2)).toNat = (after.tRttvar >>> 2).toNat * 10 * 1000 := by
  intro before after
  have hafter : Estimates 1 longestTicks after := fed_bounded samples rttUs
  have hlongest : longestTicks = 429496 := rfl
  have hshift3 : ∀ t : Tcb, (t.tSrtt >>> 3).toNat = t.tSrtt.toNat / 8 := by
    intro t
    rw [BitVec.toNat_ushiftRight, Nat.shiftRight_eq_div_pow]
  have hshift2 : ∀ t : Tcb, (t.tRttvar >>> 2).toNat = t.tRttvar.toNat / 4 := by
    intro t
    rw [BitVec.toNat_ushiftRight, Nat.shiftRight_eq_div_pow]
  have hupper := hafter.upper
  have hvariance := hafter.variance
  have hrxtcur : after.tRxtcur = rxtcurOf after.tSrtt after.tRttvar := by
    have hfed : after = utcpXmitTimer before rttUs := fed_append samples rttUs
    rw [hfed]
    exact (xmitTimer_estimates before rttUs).2.2
  refine ⟨?_, ?_, ?_, ?_, ?_, ?_, ?_, ?_, ?_⟩
  · intro lo hi hall
    have hbetween : Estimates (max 1 lo) hi after :=
      fed_estimates (Nat.le_max_left ..) samples rttUs fun r hr =>
        ⟨Nat.max_le.mpr ⟨sampleTicks_pos r, (hall r hr).1⟩, (hall r hr).2⟩
    have hlower := hbetween.lower
    rw [hshift3]
    exact ⟨Nat.le_trans (Nat.le_max_right ..) hlower, hbetween.upper⟩
  · exact fed_ne_zero (by simp)
  · rintro rfl
    exact xmitTimer_first rfl
  · intro hsamples
    have hbefore : before.tSrtt ≠ 0 := fed_ne_zero hsamples
    have hfed : after = utcpXmitTimer before rttUs := fed_append samples rttUs
    obtain ⟨hsrtt, hrttvar⟩ := @xmitTimer_next before rttUs hbefore
    intro delta
    have hdelta : delta = (sampleTicks rttUs : Int) - (before.tSrtt.toNat / 8 : Nat) := by
      rw [← hshift3]
    rw [hfed, hsrtt, hrttvar, smooth_eq, smooth_eq, hshift2, hdelta, deviation]
    exact ⟨rfl, rfl⟩
  · rw [BitVec.toNat_add, hshift3, Nat.mod_eq_of_lt (by omega)]
  · rw [hrxtcur]
    exact (rxtcurOf_bounds _ _).1
  · rw [hrxtcur]
    exact (rxtcurOf_bounds _ _).2
  · exact inMicroseconds_toNat (by rw [hshift3]; exact hupper)
  · exact inMicroseconds_toNat (by rw [hshift2]; exact hvariance)

end Utcp.Estimator
