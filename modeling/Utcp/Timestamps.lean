import Utcp.Karn
import Utcp.Network
import Utcp.Wire

/-!
Timestamps between two endpoints: what comes back in an echo is the clock at which a
segment went out.
-/

namespace Utcp.Timestamps

open TransitionSystems
open Traces
open Utcp.Tcp
open Utcp.Utils
open Utcp.Output
open Utcp.Timers
open Utcp.Input
open Utcp.Api
open Utcp.Network
open Utcp.Steps
open Utcp.Sections
open Utcp.SectionCases
open Utcp.Wire
open Utcp.Karn

variable {In : TcpSegment → Prop} {Ex : U8 → Prop} {tcb tcb' : Tcb} {log : List Event}
  {e e' : Endpoint} {n n' : Net} {a : Action} {s : Section} {seg : TcpSegment} {stamp : U32}
  {mine theirs history : List Event} {recent : U32 → Prop} {x : Side}

/-- The low half of the clock at which a segment was sent. -/
def StampOf (history : List Event) (stamp : U32) : Prop :=
  ∃ origin timeUs seg, .sent origin timeUs seg ∈ history ∧ stamp = timeUs.setWidth 32

/-- What `ts_recent` can hold of a peer that has done `history`. -/
def Recent (history : List Event) (stamp : U32) : Prop := stamp = 0 ∨ StampOf history stamp

theorem StampOf.append (h : StampOf history stamp) (log : List Event) :
    StampOf (history ++ log) stamp := by
  obtain ⟨origin, timeUs, seg, hsent, hstamp⟩ := h
  exact ⟨origin, timeUs, seg, List.mem_append_left _ hsent, hstamp⟩

theorem Recent.append (h : Recent history stamp) (log : List Event) :
    Recent (history ++ log) stamp :=
  h.imp_right fun h => h.append log

/-- A segment in flight to an endpoint that has done `mine` from one that has done
`theirs`. -/
def Stamped (mine theirs : List Event) (seg : TcpSegment) : Prop :=
  ∃ timeUs tcb seq flags dataLength, seg = buildSegment timeUs tcb seq flags dataLength ∧
    StampOf theirs (timeUs.setWidth 32) ∧ Recent mine tcb.tsRecent

theorem Stamped.append (h : Stamped mine theirs seg) (log log' : List Event) :
    Stamped (mine ++ log) (theirs ++ log') seg := by
  obtain ⟨timeUs, tcb, seq, flags, dataLength, heq, hstamp, hrecent⟩ := h
  exact ⟨timeUs, tcb, seq, flags, dataLength, heq, hstamp.append log', hrecent.append log⟩

theorem Stamped.learned (h : Stamped mine theirs seg) (env : Env) (tcb : Tcb) :
    StampOf theirs (processWindowOption env seg tcb).tsRecent := by
  obtain ⟨timeUs, tcb', seq, flags, dataLength, rfl, hstamp, -⟩ := h
  rw [processWindowOption_buildSegment]
  exact hstamp

theorem Stamped.echo (h : Stamped mine theirs seg) (env : Env) :
    ∃ stamp, extractTsecr env seg = some stamp ∧ Recent mine stamp := by
  obtain ⟨timeUs, tcb', seq, flags, dataLength, rfl, -, hrecent⟩ := h
  exact ⟨tcb'.tsRecent, extractTsecr_buildSegment .., hrecent⟩

end Utcp.Timestamps
