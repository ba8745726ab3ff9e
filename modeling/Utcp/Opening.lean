import Utcp.Frames
import Utcp.Network
import Utcp.SendLoop

/-!
A connection before `TCP_ESTABLISHED`: what one call of `utcp_output` and one
tick of the clock do there.
-/

namespace Utcp.Opening

open Traces
open SerialNumbers
open Utcp.Tcp
open Utcp.Utils
open Utcp.Output
open Utcp.CongestionControl
open Utcp.Timers
open Utcp.Input
open Utcp.Api
open Utcp.Steps
open Utcp.Sections
open Utcp.Frames
open Utcp.SendLoop

variable {tcb tcb' : Tcb} {log : List Event}

theorem outputLength_opening (hstate : tcb.state ≠ .established) : outputLength tcb = 0 := by
  rw [outputLength, if_neg hstate]

theorem outputTurn_opening (reading : Reading) (flags : U8) (forceSend : Bool)
    (hstate : tcb.state ≠ .established) : (outputTurn reading flags forceSend tcb).2 = false := by
  simp only [outputTurn]
  split
  · rfl
  · split
    · rfl
    · exact decide_eq_false (not_not.mpr (outputLength_opening hstate))

/-- One call of `utcp_output` before `TCP_ESTABLISHED` is one turn of its loop. -/
theorem utcpOutput_opening (readings : Nat → Reading) (hstate : tcb.state ≠ .established) :
    utcpOutput readings tcb =
      (outputTurn (readings 0) (tcpOutflags tcb.state) tcb.tfAcknow
        { tcb with tfAcknow := false }).1 := by
  have hmore := @outputTurn_opening { tcb with tfAcknow := false } (readings 0)
    (tcpOutflags tcb.state) tcb.tfAcknow hstate
  simp only [utcpOutput]
  rw [outputLoop]
  generalize outputTurn (readings 0) (tcpOutflags tcb.state) tcb.tfAcknow
    { tcb with tfAcknow := false } = result at hmore ⊢
  obtain ⟨out, more⟩ := result
  obtain rfl : more = false := hmore
  rfl

/-- The ways one call of `utcp_output` ends before `TCP_ESTABLISHED`. -/
inductive OpeningOutput (reading : Reading) (tcb : Tcb) : Out → Prop
  | quiet (hsyn : sendingNewSynFin (tcpOutflags tcb.state) tcb = false)
      (hforce : tcb.tfAcknow = false) :
      OpeningOutput reading tcb ⟨{ tcb with tfAcknow := false }, []⟩
  | failed (halloc : reading.alloc = false)
      (hcause : sendingNewSynFin (tcpOutflags tcb.state) tcb = true ∨ tcb.tfAcknow = true) :
      OpeningOutput reading tcb ⟨cancelDelack { tcb with tfAcknow := false }, []⟩
  | bare (hsyn : sendingNewSynFin (tcpOutflags tcb.state) tcb = false)
      (hforce : tcb.tfAcknow = true) (seg : TcpSegment) (log : List Event) (hlog : segments log = [seg]) :
      OpeningOutput reading tcb ⟨cancelDelack { tcb with tfAcknow := false }, log⟩
  | syn (hsyn : sendingNewSynFin (tcpOutflags tcb.state) tcb = true) (log : List Event)
      (hlog : segments log =
        [buildSegment reading.timeUs (cancelDelack { tcb with tfAcknow := false }) tcb.sndNxt
          (tcpOutflags tcb.state) 0]) :
      OpeningOutput reading tcb
        ⟨advanceSndNxt (cancelDelack { tcb with tfAcknow := false }) 0 true, log⟩

theorem utcpOutput_ends (readings : Nat → Reading) (hstate : tcb.state ≠ .established) :
    OpeningOutput (readings 0) tcb (utcpOutput readings tcb) := by
  have hlen : outputLength { tcb with tfAcknow := false } = 0 := outputLength_opening hstate
  have hnxt := cancelDelack_sndNxt { tcb with tfAcknow := false }
  have hsyn : sendingNewSynFin (tcpOutflags tcb.state) { tcb with tfAcknow := false } =
      sendingNewSynFin (tcpOutflags tcb.state) tcb := rfl
  rw [utcpOutput_opening readings hstate]
  simp only [outputTurn]
  rw [hlen, hnxt, hsyn]
  split
  · rename_i hquiet
    exact .quiet (by simpa using hquiet.2.1) (by simpa using hquiet.2.2)
  · rename_i hsends
    have hcause : sendingNewSynFin (tcpOutflags tcb.state) tcb = true ∨ tcb.tfAcknow = true := by
      by_contra hnot
      rw [not_or, Bool.not_eq_true, Bool.not_eq_true] at hnot
      exact hsends ⟨rfl, by simp [hnot.1], by simp [hnot.2]⟩
    split
    · rename_i hnone
      exact .failed (utcpSendSegment_none hnone) hcause
    · rename_i log hlog
      have hsegments := (utcpSendSegment_segments hlog).2
      cases hnew : sendingNewSynFin (tcpOutflags tcb.state) tcb with
      | true =>
          rw [if_pos (.inr rfl)]
          exact .syn hnew log hsegments
      | false =>
          rw [hnew, Bool.false_eq_true, false_or] at hcause
          rw [if_neg (by simp)]
          exact .bare hnew hcause _ log hsegments

end Utcp.Opening
