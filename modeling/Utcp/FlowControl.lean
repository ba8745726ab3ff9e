import Utcp.Deadlock
import Utcp.FileTransfer
import Utcp.Reopening

/-!
Flow control. A receiver only ever offers its sender the space it has, and keeps what it
offered; so the window that the sender holds, whatever segment it comes from, ends at or
below the receiver's right edge.
-/

namespace Utcp.FlowControl

open SerialNumbers
open Slices
open Traces
open TransitionSystems
open Utcp.Tcp
open Utcp.Utils
open Utcp.Output
open Utcp.CongestionControl
open Utcp.Timers
open Utcp.Input
open Utcp.Api
open Utcp.Network
open Utcp.Steps
open Utcp.Sections
open Utcp.Frames
open Utcp.SendLoop
open Utcp.SectionCases
open Utcp.Accounting
open Utcp.Buffers
open Utcp.Receiver
open Utcp.Sender
open Utcp.Wire
open Utcp.Acknowledging
open Utcp.Lifecycle
open Utcp.Reliable
open Utcp.Alignment
open Utcp.Karn
open Utcp.LongRuns
open Utcp.Deadlock
open Utcp.FileTransfer

variable {Ex : U8 → Prop} {tcb tcb' : Tcb} {seg : TcpSegment} {log : List Event}
  {e e' : Endpoint} {s : Section} {n n' : Net} {a : Action} {d edge limit : Nat}

/-- A segment of a peer that runs this code. -/
def Wired (seg : TcpSegment) : Prop :=
  ∃ timeUs tcb seq flags dataLength, tcb.rcvScale = 5 ∧
    seg = buildSegment timeUs tcb seq flags dataLength

/-- The window in a segment, as a peer with the scale of this code reads it. -/
def windowOf (seg : TcpSegment) : Nat :=
  if hasFlag seg.hdr.thFlags thSyn then seg.hdr.thWin.toNat else seg.hdr.thWin.toNat * 32

/-- The scale of this code, at both ends. -/
structure Tuned (tcb : Tcb) : Prop where
  rcvScale : tcb.rcvScale = 5
  sndScale : tcb.scaleEnabled = true → tcb.sndScale = 5

/-- The scale is negotiated with the handshake. -/
structure Scales (tcb : Tcb) : Prop where
  tuned : Tuned tcb
  enabled : Receiving tcb → tcb.scaleEnabled = true

theorem Tuned.getScaledWin (h : Tuned tcb) (henabled : tcb.scaleEnabled = true)
    (seg : TcpSegment) : (getScaledWin tcb seg.hdr).toNat = windowOf seg := by
  have hwin := seg.hdr.thWin.isLt
  rw [Utils.getScaledWin, henabled, h.sndScale henabled, windowOf]
  by_cases hsyn : hasFlag seg.hdr.thFlags thSyn = true
  · rw [hsyn]
    simp
    omega
  · have hnot : hasFlag seg.hdr.thFlags thSyn = false := by simpa using hsyn
    rw [hnot]
    simp [BitVec.toNat_shiftLeft, Nat.shiftLeft_eq]
    omega

theorem Tuned.learned (h : Tuned tcb) (hseg : Wired seg) (env : Env) :
    Tuned (processWindowOption env seg tcb) ∧
      (processWindowOption env seg tcb).scaleEnabled =
        (hasFlag seg.hdr.thFlags thSyn || tcb.scaleEnabled) := by
  obtain ⟨timeUs, tcb', seq, flags, dataLength, hscale, rfl⟩ := hseg
  rw [processWindowOption_buildSegment, hscale]
  have hsyn : ∀ flag, hasFlag flags thSyn = flag →
      (learn tcb timeUs flags 5).sndScale = (if flag then 5 else tcb.sndScale) ∧
        (learn tcb timeUs flags 5).scaleEnabled = (flag || tcb.scaleEnabled) := by
    rintro _ rfl
    exact ⟨rfl, rfl⟩
  refine ⟨⟨h.rcvScale, fun hon => ?_⟩, rfl⟩
  obtain ⟨hsnd, henabled⟩ := hsyn _ rfl
  rw [henabled] at hon
  rw [hsnd]
  split
  · rfl
  · rename_i hflag
    rw [Bool.not_eq_true] at hflag
    rw [hflag, Bool.false_or] at hon
    exact h.sndScale hon

theorem Scales.same (h : Scales tcb) (hrcv : tcb'.rcvScale = tcb.rcvScale)
    (hsnd : tcb'.sndScale = tcb.sndScale) (henabled : tcb'.scaleEnabled = tcb.scaleEnabled)
    (hstate : Receiving tcb' → Receiving tcb) : Scales tcb' := by
  refine ⟨⟨hrcv.trans h.tuned.rcvScale, fun hon => ?_⟩, fun hreceiving => ?_⟩
  · exact hsnd.trans (h.tuned.sndScale (henabled.symm.trans hon))
  · exact henabled.trans (h.enabled (hstate hreceiving))

theorem tcbStep_scales {In : TcpSegment → Prop} (hIn : ∀ seg, In seg → Wired seg)
    (h : TcbStep In Ex tcb log tcb') (hs : Scales tcb) : Scales tcb' := by
  cases h with
  | output h =>
      obtain ⟨_, _, _, _, _, _, _, rfl⟩ := outputTrace_eq (.single h)
      exact hs.same rfl rfl rfl id
  | receive _ h =>
      obtain ⟨_, _, _, _, _, rfl⟩ := receiveTrace_eq (.single h)
      exact hs.same rfl rfl rfl id
  | ack _ h =>
      cases h with
      | options env seg hseg =>
          obtain ⟨htuned, henabled⟩ := hs.tuned.learned (hIn seg hseg) env
          refine ⟨htuned, fun hstate => ?_⟩
          obtain ⟨_, _, _, _, heq⟩ := processWindowOption_eq env seg tcb
          rw [heq] at hstate
          rw [henabled, hs.enabled hstate, Bool.or_true]
      | sample rttUs =>
          obtain ⟨_, _, _, heq⟩ := utcpXmitTimer_eq tcb rttUs
          rw [heq]
          exact hs.same rfl rfl rfl id
      | rearm env =>
          obtain ⟨_, _, heq⟩ := rearmRexmt_eq env tcb
          rw [heq]
          exact hs.same rfl rfl rfl id
      | ack => exact hs.same rfl rfl rfl id
      | window => exact hs.same rfl rfl rfl id
      | congestion => exact hs.same rfl rfl rfl id
      | retransmit => exact hs
  | timer h =>
      cases h with
      | rexmt env recover =>
          obtain ⟨_, _, heq⟩ := expireRexmt_eq env tcb recover
          rw [heq]
          exact hs.same rfl rfl rfl id
      | clock => exact hs.same rfl rfl rfl id
      | countDown => exact hs.same rfl rfl rfl id
      | other => exact hs.same rfl rfl rfl id
  | opening h =>
      cases h with
      | connect ip port hclosed =>
          refine hs.same rfl rfl rfl fun hreceiving => ?_
          rcases hreceiving with hother | hother <;> cases hother
      | syn env seg peer hseg hlisten hflag =>
          obtain ⟨htuned, henabled⟩ := hs.tuned.learned (hIn seg hseg) env
          rw [hflag, Bool.true_or] at henabled
          exact ⟨⟨htuned.rcvScale, htuned.sndScale⟩, fun _ => henabled⟩
      | synAck env seg hseg hsent hawaited =>
          have hflag : hasFlag seg.hdr.thFlags thSyn = true := by
            rw [isAwaitedSynAck, Bool.and_eq_true, Bool.and_eq_true] at hawaited
            exact hawaited.1.1
          have hbefore : Tuned { tcb with
              sndUna := seg.hdr.thAck
              irs := seg.hdr.thSeq
              rcvNxt := seg.hdr.thSeq + 1
              state := .established } := ⟨hs.tuned.rcvScale, hs.tuned.sndScale⟩
          obtain ⟨htuned, henabled⟩ := hbefore.learned (hIn seg hseg) env
          rw [hflag, Bool.true_or] at henabled
          exact ⟨⟨htuned.rcvScale, htuned.sndScale⟩, fun _ => henabled⟩
      | finalAck seg hseg hrecv hcompletes =>
          exact hs.same rfl rfl rfl fun _ => .inl hrecv

/-- What an endpoint offers that has put together the stream up to `edge`, and whose right
edge is `limit`. -/
inductive Offers (edge limit : Nat) (seg : TcpSegment) : Prop
  | syn (hflag : hasFlag seg.hdr.thFlags thSyn = true)
      (hbare : hasFlag seg.hdr.thFlags thAck = false) (hack : seg.hdr.thAck = 0)
  | ack (pos : Nat) (hpos : pos ≤ edge) (hack : seg.hdr.thAck = seqOf pos)
      (hwindow : pos + windowOf seg ≤ limit)

theorem Offers.mono {edge' limit' : Nat} (h : Offers edge limit seg) (hedge : edge ≤ edge')
    (hlimit : limit ≤ limit') : Offers edge' limit' seg := by
  cases h with
  | syn hflag hbare hack => exact .syn hflag hbare hack
  | ack pos hpos hack hwindow => exact .ack pos (by omega) hack (by omega)

/-- The states in which an endpoint talks. -/
def Talking (tcb : Tcb) : Prop := tcb.state = .synSent ∨ Receiving tcb

/-- An endpoint that talks, with `d` bytes delivered. -/
structure Hears (d : Nat) (tcb : Tcb) : Prop where
  talking : Talking tcb
  accounts : Accounts tcb
  scales : Scales tcb
  before : tcb.state = .synSent → tcb.rcvNxt = 0 ∧ bufUsed tcb = 0 ∧ d = 0
  after : Receiving tcb → tcb.irs = 0 ∧ tcb.rcvNxt = seqOf (d + (bufUsed tcb).toNat)

theorem setScaledWin_le (hscale : tcb.rcvScale = 5) (henabled : tcb.scaleEnabled = true) (flags : U8)
    (freeSpace : U32) :
    (if hasFlag flags thSyn then (setScaledWin tcb flags freeSpace).toNat
      else (setScaledWin tcb flags freeSpace).toNat * 32) ≤ freeSpace.toNat := by
  rw [setScaledWin, henabled, hscale]
  cases hasFlag flags thSyn with
  | true =>
      change ((if freeSpace > 65535 then 65535 else freeSpace).setWidth 16).toNat ≤ _
      rw [BitVec.toNat_setWidth]
      refine (Nat.mod_le _ _).trans ?_
      split
      · rename_i hlarge
        exact Nat.le_of_lt hlarge
      · exact Nat.le_refl _
  | false =>
      simp [Nat.shiftRight_eq_div_pow]
      omega

theorem Hears.offers (h : Hears d tcb) (timeUs : U64) (seq dataLength : U32) :
    Offers (d + (bufUsed tcb).toNat) (d + recvBufSize.toNat)
      (buildSegment timeUs tcb seq (tcpOutflags tcb.state) dataLength) := by
  rcases h.talking with hsent | hreceiving
  · have hflags : tcpOutflags tcb.state = thSyn := congrArg tcpOutflags hsent
    rw [hflags]
    have hflag : hasFlag thSyn thSyn = true := by decide
    have hbare : hasFlag thSyn thAck = false := by decide
    exact .syn hflag hbare (h.before hsent).1
  · have hroom := h.accounts.room
    have hfree : (currentFreeSpace tcb).toNat = _ := h.accounts.free
    have hwindow := setScaledWin_le h.scales.tuned.rcvScale (h.scales.enabled hreceiving)
      (tcpOutflags tcb.state) (currentFreeSpace tcb)
    refine .ack _ (Nat.le_refl _) (h.after hreceiving).2 ?_
    have hle : windowOf (buildSegment timeUs tcb seq (tcpOutflags tcb.state) dataLength) ≤
        (currentFreeSpace tcb).toNat := hwindow
    omega

/-- What a section may get: a segment of a peer whose SYN comes first. -/
structure Heard (seg : TcpSegment) : Prop where
  wired : Wired seg
  short : (payload seg).length < 2 ^ 32
  syn : hasFlag seg.hdr.thFlags thSyn = true → seg.hdr.thSeq = 0

theorem acceptBytes_after {data : List U8}
    (hfits : (bufUsed tcb).toNat + data.length ≤ recvBufSize.toNat)
    (hafter : tcb.rcvNxt = seqOf (d + (bufUsed tcb).toNat)) :
    (bufUsed (acceptBytes tcb data)).toNat = (bufUsed tcb).toNat + data.length ∧
      (acceptBytes tcb data).rcvNxt = seqOf (d + (bufUsed (acceptBytes tcb data)).toNat) := by
  have hsize := recvBufSize_toNat
  have hlen : (BitVec.ofNat 32 data.length).toNat = data.length := toNat_ofNat_length (by omega)
  have hused : (bufUsed (acceptBytes tcb data)).toNat = (bufUsed tcb).toNat + data.length := by
    rw [bufUsed_acceptBytes, toNat_add_of_lt (by omega), hlen]
  refine ⟨hused, ?_⟩
  rw [hused, ← Nat.add_assoc, ← seqOf_add, ← hafter]
  rfl

theorem receiveStep_after {In : TcpSegment → Prop} (h : ReceiveStep In tcb log tcb')
    (ha : Accounts tcb) (hafter : tcb.rcvNxt = seqOf (d + (bufUsed tcb).toNat)) :
    tcb'.irs = tcb.irs ∧ tcb'.rcvNxt = seqOf (d + (bufUsed tcb').toNat) := by
  have hroom := ha.room
  cases h with
  | accept seg data hseg hdata hfits =>
      rw [ha.free] at hfits
      exact ⟨rfl, (acceptBytes_after (by omega) hafter).2⟩
  | drain entry rest hqueue hseq hfits =>
      have hentry := ha.entry (hqueue ▸ List.mem_cons_self)
      have hsplit := @Accounts.split _ ha [] rest entry hqueue
      rw [queued_nil] at hsplit
      exact ⟨rfl, (acceptBytes_after (by omega) hafter).2⟩
  | _ => exact ⟨rfl, hafter⟩

theorem Hears.same (h : Hears d tcb) (hscales : Scales tcb') (hsame : SameReceive tcb tcb')
    (hstate : tcb'.state = tcb.state) : Hears d tcb' := by
  have htalking : Talking tcb' := by
    rw [Talking, Receiving, hstate]
    exact h.talking
  refine ⟨htalking, h.accounts.same hsame, hscales, fun hsent => ?_, fun hreceiving => ?_⟩
  · rw [hsame.rcvNxt, hsame.bufUsed]
    exact h.before (hstate.symm.trans hsent)
  · rw [hsame.irs, hsame.rcvNxt, hsame.bufUsed]
    rw [Receiving, hstate] at hreceiving
    exact h.after hreceiving

theorem tcbStep_hears (h : TcbStep Heard Ex tcb log tcb') (hh : Hears d tcb) : Hears d tcb' := by
  have hscales := tcbStep_scales (fun _ hseg => hseg.wired) h hh.scales
  have haccounts := (tcbStep_accounts (fun _ hseg => hseg.short) h hh.accounts).1
  cases h with
  | output h => exact hh.same hscales (outputStep_sameReceive h) (outputStep_state h)
  | receive hstate h =>
      have hstate' : Receiving tcb' := @tcbStep_receiving _ Ex _ _ _ (.receive hstate h) hstate
      obtain ⟨hirs, hnxt⟩ := hh.after hstate
      obtain ⟨hirs', hnxt'⟩ := receiveStep_after h hh.accounts hnxt
      refine ⟨.inr hstate', haccounts, hscales, fun hsent => ?_, fun _ => ⟨hirs'.trans hirs, hnxt'⟩⟩
      rcases hstate' with hother | hother <;> exact absurd (hother.symm.trans hsent) (by decide)
  | ack _ h => exact hh.same hscales (ackStep_sameReceive h) (ackStep_state h)
  | timer h =>
      refine hh.same hscales (timerStep_sameReceive h) ?_
      cases h <;> rfl
  | opening h =>
      have hused := openStep_bufUsed h
      rcases hh.talking with hsent | hreceiving
      · obtain ⟨-, hempty, hzero⟩ := hh.before hsent
        cases h with
        | connect ip port hclosed => exact absurd (hclosed.symm.trans hsent) (by decide)
        | syn env seg peer hseg hlisten => exact absurd (hlisten.symm.trans hsent) (by decide)
        | finalAck seg hseg hrecv => exact absurd (hrecv.symm.trans hsent) (by decide)
        | synAck env seg hseg hstate hawaited =>
            have hflag : hasFlag seg.hdr.thFlags thSyn = true := by
              rw [isAwaitedSynAck, Bool.and_eq_true, Bool.and_eq_true] at hawaited
              exact hawaited.1.1
            have hfirst : (acceptSynAck env tcb seg).irs = 0 ∧
                (acceptSynAck env tcb seg).rcvNxt = 0 + 1 := by
              rw [← hseg.syn hflag]
              obtain ⟨_, _, _, _, heq⟩ := processWindowOption_eq env seg
                { tcb with
                  sndUna := seg.hdr.thAck
                  irs := seg.hdr.thSeq
                  rcvNxt := seg.hdr.thSeq + 1
                  state := .established }
              rw [acceptSynAck, heq]
              exact ⟨rfl, rfl⟩
            have hstate' := acceptSynAck_state env tcb seg
            refine ⟨.inr (.inr hstate'), haccounts, hscales, fun hother => ?_, fun _ => ⟨hfirst.1, ?_⟩⟩
            · exact absurd (hother.symm.trans hstate') (by decide)
            · rw [hused, hempty, hzero, hfirst.2]
              decide
      · have hother : ∀ state, tcb.state = state → state = .synRecv ∨ state = .established := by
          rintro _ rfl
          exact hreceiving
        cases h with
        | connect ip port hclosed => exact absurd (hother _ hclosed) (by decide)
        | syn env seg peer hseg hlisten => exact absurd (hother _ hlisten) (by decide)
        | synAck env seg hseg hsent => exact absurd (hother _ hsent) (by decide)
        | finalAck seg hseg hrecv hcompletes =>
            refine ⟨.inr (.inr rfl), haccounts, hscales, ?_, fun _ => hh.after hreceiving⟩
            rintro ⟨⟩

/-- What a step puts on the wire bears the flags of the state. -/
theorem tcbStep_sent {In : TcpSegment → Prop} (h : TcbStep In Ex tcb log tcb')
    (hseg : seg ∈ segments log) :
    ∃ timeUs seq dataLength,
      seg = buildSegment timeUs tcb seq (tcpOutflags tcb.state) dataLength := by
  have hsilent : ∀ {log : List Event}, segments log = [] → seg ∉ segments log := by
    intro log hlog hmem
    rw [hlog] at hmem
    cases hmem
  cases h with
  | output h =>
      cases h with
      | flags => cases hseg
      | delack => cases hseg
      | bare timeUs hlen hsyn =>
          exact ⟨timeUs, _, _, List.mem_singleton.mp hseg⟩
      | advance timeUs newSynFin hsyn hadvance =>
          exact ⟨timeUs, _, _, List.mem_singleton.mp hseg⟩
  | receive _ h => cases h <;> cases hseg
  | ack _ h =>
      cases h with
      | rearm env => exact absurd hseg (hsilent (rearmRexmt_segments env tcb))
      | retransmit reading =>
          unfold utcpRetransmitSegment utcpSendSegment at hseg
          split at hseg
          · cases hseg
          · split at hseg
            · exact ⟨_, _, _, List.mem_singleton.mp hseg⟩
            · cases hseg
      | _ => cases hseg
  | timer h => cases h <;> cases hseg
  | opening h => cases h <;> cases hseg

/-- The segments that are in flight from an endpoint, as long as `edge` and `limit` hold. -/
structure Honest (edge limit : Nat) (seg : TcpSegment) : Prop where
  wired : Wired seg
  offers : Offers edge limit seg

theorem Honest.mono {edge' limit' : Nat} (h : Honest edge limit seg) (hedge : edge ≤ edge')
    (hlimit : limit ≤ limit') : Honest edge' limit' seg :=
  ⟨h.wired, h.offers.mono hedge hlimit⟩

/-- The right edge an endpoint has offered at most, as a position of the stream. -/
def limitOf (e : Endpoint) : Nat := e.delivered.length + recvBufSize.toNat

/-- What a stretch of steps of an endpoint that talks does. -/
structure Speaks (e : Endpoint) (log : List Event) (e' : Endpoint) : Prop where
  hears : Hears e'.delivered.length e'.tcb
  edge : edgeOf e ≤ edgeOf e'
  limit : limitOf e ≤ limitOf e'
  sent : ∀ seg ∈ segments log, Honest (edgeOf e') (limitOf e') seg

theorem endpointStep_speaks (h : EndpointStep Heard Ex e log e')
    (hh : Hears e.delivered.length e.tcb) : Speaks e log e' := by
  have hedge := endpointStep_edge h hh.accounts
  have hlimit : limitOf e ≤ limitOf e' := Nat.add_le_add_right (endpointStep_delivered h) _
  cases h with
  | tcb h =>
      refine ⟨tcbStep_hears h hh, hedge, hlimit, fun seg hseg => ?_⟩
      obtain ⟨timeUs, seq, dataLength, rfl⟩ := tcbStep_sent h hseg
      have hoffers : Offers (edgeOf e) (limitOf e) _ := hh.offers timeUs seq dataLength
      exact ⟨⟨timeUs, _, _, _, _, hh.scales.tuned.rcvScale, rfl⟩, hoffers.mono hedge hlimit⟩
  | call bytes hstate hpending => exact ⟨hh, hedge, hlimit, by simp⟩
  | write k hstate hroom hk =>
      refine ⟨hh.same ?_ ?_ ?_, hedge, hlimit, by simp⟩
      · exact hh.scales.same rfl rfl rfl id
      · exact ⟨rfl, rfl, rfl, rfl, rfl, rfl, rfl⟩
      · rfl
  | read k hstate hk =>
      refine ⟨?_, hedge, hlimit, by simp⟩
      have hstate' : (takeBytes e.tcb k).state = .established := (takeBytes_state ..).trans hstate
      have hroom := hh.accounts.room
      have hused := bufUsed_takeBytes hk
      have hlen : (ringBufRead e.tcb.recvBuf recvBufSize e.tcb.recvBufHead k).length = k :=
        ringBufRead_length (by omega)
      obtain ⟨hirs, hnxt⟩ := hh.after (.inr hstate)
      have haccounts := hh.accounts.take hk
      have hscales : Scales (takeBytes e.tcb k) := by
        obtain ⟨_, _, heq⟩ := takeBytes_eq e.tcb k
        rw [heq]
        exact hh.scales.same rfl rfl rfl id
      have hkept : (takeBytes e.tcb k).irs = e.tcb.irs ∧
          (takeBytes e.tcb k).rcvNxt = e.tcb.rcvNxt := by
        obtain ⟨_, _, heq⟩ := takeBytes_eq e.tcb k
        rw [heq]
        exact ⟨rfl, rfl⟩
      refine ⟨.inr (.inr hstate'), haccounts, hscales, fun hother => ?_, fun _ => ⟨?_, ?_⟩⟩
      · exact absurd (hother.symm.trans hstate') (by decide)
      · exact hkept.1.trans hirs
      · rw [List.length_append, hlen, hused, hkept.2, hnxt]
        congr 1
        omega

theorem trace_speaks (h : Trace (EndpointStep Heard Ex) e log e')
    (hh : Hears e.delivered.length e.tcb) : Speaks e log e' := by
  induction h with
  | nil e => exact ⟨hh, Nat.le_refl _, Nat.le_refl _, by simp⟩
  | cons hstep hrest ih =>
      have hfirst := endpointStep_speaks hstep hh
      have hlast := ih hfirst.hears
      refine ⟨hlast.hears, Nat.le_trans hfirst.edge hlast.edge, Nat.le_trans hfirst.limit hlast.limit,
        fun seg hseg => ?_⟩
      rw [segments_append] at hseg
      rcases List.mem_append.mp hseg with hseg | hseg
      · exact (hfirst.sent seg hseg).mono hlast.edge hlast.limit
      · exact hlast.sent seg hseg

/-- An endpoint before its handshake. -/
structure Unheard (tcb : Tcb) : Prop where
  untouched : Untouched tcb
  rcvNxt : tcb.rcvNxt = 0
  tuned : Tuned tcb

theorem Unheard.bufUsed (h : Unheard tcb) : bufUsed tcb = 0 := by
  rw [Utils.bufUsed, h.untouched.recvBufTail, h.untouched.recvBufHead]
  rfl

theorem Unheard.accounts (h : Unheard tcb) : Accounts tcb := by
  have hqueue := h.untouched.oooHead
  have hbytes := h.untouched.oooBytes
  refine ⟨?_, ?_, ?_, ?_⟩
  · rw [hbytes, hqueue]
    rfl
  · simp [hqueue]
  · simp [hqueue]
  · rw [h.bufUsed, hbytes]
    exact Nat.zero_le _

theorem Listening.unheard (h : Listening tcb) : Unheard tcb := by
  obtain ⟨ip, port, tIdle, rfl⟩ := h
  have hscale : windowScale 14 0 = 5 := by decide
  exact ⟨⟨rfl, rfl, rfl, rfl⟩, rfl, hscale, by rintro ⟨⟩⟩

inductive Hearing (e : Endpoint) : Prop
  | closed (hstate : e.tcb.state = .closed) (h : Unheard e.tcb) (hnone : e.delivered = [])
  | listening (h : Listening e.tcb) (hnone : e.delivered = [])
  | talking (h : Hears e.delivered.length e.tcb)

theorem run_undelivered (hnot : e.tcb.state ≠ .established) (hrun : e.run s = some (e', log)) :
    e'.delivered = e.delivered := by
  obtain ⟨bytes, hreturned, hdelivered⟩ := (run_serves hrun).delivered
  have hnone : bytes = [] := by
    cases s with
    | read env len =>
        simp only [Endpoint.run] at hrun
        rw [if_neg fun hread => hnot hread.1] at hrun
        cases hrun
    | _ => exact hreturned
  rw [hdelivered, hnone, List.append_nil]

/-- The first segment an endpoint puts on the wire. -/
theorem output_hears (readings : Nat → Reading) (h : Hears 0 tcb) (hempty : bufUsed tcb = 0) :
    Hears 0 (utcpOutput readings tcb).tcb ∧ bufUsed (utcpOutput readings tcb).tcb = 0 ∧
      ∀ seg ∈ segments (utcpOutput readings tcb).log, Honest 0 recvBufSize.toNat seg := by
  have hevents := (utcpOutput_trace readings tcb).events
    (I := fun tcb => Hears 0 tcb ∧ bufUsed tcb = 0)
    (G := fun event => ∀ origin timeUs seg, event = .sent origin timeUs seg →
      Honest 0 recvBufSize.toNat seg) ?_ ⟨h, hempty⟩
  · obtain ⟨⟨hhears, hused⟩, hlog⟩ := hevents
    refine ⟨hhears, hused, fun seg hseg => ?_⟩
    obtain ⟨origin, timeUs, hmem⟩ := mem_segments.mp hseg
    exact hlog _ hmem origin timeUs seg rfl
  · rintro tcb log tcb' hstep ⟨hh, hused⟩
    have hstep' : TcbStep Heard (fun _ => True) tcb log tcb' := .output hstep
    have hused' := (outputStep_sameReceive hstep).bufUsed.trans hused
    refine ⟨⟨tcbStep_hears hstep' hh, hused'⟩, fun event hevent origin timeUs seg heq => ?_⟩
    have hseg : seg ∈ segments log := mem_segments.mpr ⟨origin, timeUs, heq ▸ hevent⟩
    obtain ⟨timeUs', seq, dataLength, rfl⟩ := tcbStep_sent hstep' hseg
    have hoffers := hh.offers timeUs' seq dataLength
    rw [hused, Nat.zero_add] at hoffers
    exact ⟨⟨timeUs', _, _, _, _, hh.scales.tuned.rcvScale, rfl⟩, hoffers⟩

theorem edgeOf_unheard (hempty : bufUsed e.tcb = 0) (hnone : e.delivered = []) :
    edgeOf e = 0 ∧ limitOf e = recvBufSize.toNat := by
  rw [edgeOf, limitOf, hempty, hnone]
  exact ⟨rfl, Nat.zero_add _⟩

/-- What a section of an endpoint does, whatever it heard before. -/
structure Replies (e : Endpoint) (log : List Event) (e' : Endpoint) : Prop where
  hearing : Hearing e'
  edge : edgeOf e ≤ edgeOf e'
  limit : limitOf e ≤ limitOf e'
  sent : ∀ seg ∈ segments log, Honest (edgeOf e') (limitOf e') seg

theorem replies_opened (hunheard : Unheard e.tcb) (hnone : e.delivered = [])
    (hnone' : e'.delivered = []) {readings : Nat → Reading} (h : Hears 0 tcb)
    (hempty : bufUsed tcb = 0) (htcb : e'.tcb = (utcpOutput readings tcb).tcb)
    (hlog : log = (utcpOutput readings tcb).log) : Replies e log e' := by
  obtain ⟨hhears, hused, hsent⟩ := output_hears readings h hempty
  rw [← htcb] at hhears hused
  rw [← hlog] at hsent
  obtain ⟨hedge, hlimit⟩ := edgeOf_unheard hunheard.bufUsed hnone
  obtain ⟨hedge', hlimit'⟩ := edgeOf_unheard hused hnone'
  refine ⟨.talking ?_, ?_, ?_, ?_⟩
  · rw [hnone']
    exact hhears
  · rw [hedge, hedge']
  · rw [hlimit, hlimit']
  · rw [hedge', hlimit']
    exact hsent

theorem replies_silent (hh : Hearing e') (hused : bufUsed e'.tcb = bufUsed e.tcb)
    (hdelivered : e'.delivered = e.delivered) (hlog : segments log = []) : Replies e log e' := by
  refine ⟨hh, ?_, ?_, ?_⟩
  · rw [edgeOf, edgeOf, hused, hdelivered]
  · rw [limitOf, limitOf, hdelivered]
  · rw [hlog]
    simp

theorem run_replies (h : Hearing e) (hin : ∀ env seg peer, s = .input env seg peer → Heard seg)
    (hrun : e.run s = some (e', log)) : Replies e log e' := by
  obtain ⟨out, hout, htcb, hlog, -⟩ := run_cases hrun
  cases h with
  | closed hstate hunheard hnone =>
      have hdelivered := run_undelivered (by rw [hstate]; decide) hrun
      rcases closed_cases hstate hout with ⟨env, ip, port, rfl⟩ | rfl
      · have hhears : Hears 0 { e.tcb with
            dstIp := ip, dstPort := port, dstUdpPort := 1970, state := .synSent } := by
          have haccounts := hunheard.accounts
          refine ⟨.inl rfl, ⟨haccounts.sum, haccounts.positive, haccounts.copied, haccounts.room⟩,
            ⟨⟨hunheard.tuned.rcvScale, hunheard.tuned.sndScale⟩, ?_⟩,
            fun _ => ⟨hunheard.rcvNxt, hunheard.bufUsed, rfl⟩, ?_⟩
          · rintro (hother | hother) <;> cases hother
          · rintro (hother | hother) <;> cases hother
        exact replies_opened hunheard hnone (hdelivered.trans hnone) hhears hunheard.bufUsed htcb hlog
      · refine replies_silent (.closed ?_ ?_ (hdelivered.trans hnone)) ?_ hdelivered ?_
        · rw [htcb]
          exact hstate
        · rw [htcb]
          exact hunheard
        · rw [htcb]
        · rw [hlog]
          rfl
  | listening hlistening hnone =>
      have hstate := hlistening.state
      have hunheard := Listening.unheard hlistening
      have hdelivered := run_undelivered (by rw [hstate]; decide) hrun
      rcases listen_cases hstate hout with ⟨env, seg, peer, rfl, hflag, rfl⟩ | rfl | ⟨envs, hslow⟩
      · have hheard := hin env seg peer rfl
        have hopen : OpenStep Heard e.tcb [] (acceptSyn env e.tcb seg peer) :=
          .syn e.tcb env seg peer hheard hstate hflag
        have hbefore : Scales e.tcb := by
          refine ⟨hunheard.tuned, ?_⟩
          rintro (hother | hother) <;> exact absurd (hother.symm.trans hstate) (by decide)
        have hstep : TcbStep Heard (fun _ => True) e.tcb [] (acceptSyn env e.tcb seg peer) :=
          .opening hopen
        have hscales := tcbStep_scales (fun _ hseg => hseg.wired) hstep hbefore
        have haccounts := (openStep_accounts hopen hunheard.accounts).1
        have hused := (openStep_bufUsed hopen).trans hunheard.bufUsed
        refine replies_opened hunheard hnone (hdelivered.trans hnone) ?_ hused htcb hlog
        refine ⟨.inr (.inl rfl), haccounts, hscales, ?_, fun _ => ⟨hheard.syn hflag, ?_⟩⟩
        · rintro ⟨⟩
        · rw [hused]
          change seg.hdr.thSeq + 1 = _
          rw [hheard.syn hflag]
          rfl
      · refine replies_silent (.listening ?_ (hdelivered.trans hnone)) ?_ hdelivered ?_
        · rw [htcb]
          exact hlistening
        · rw [htcb]
        · rw [hlog]
          rfl
      · obtain ⟨hlistening', hsilent⟩ := hlistening.slowtimo hslow
        rw [← htcb] at hlistening'
        refine replies_silent (.listening hlistening' (hdelivered.trans hnone)) ?_ hdelivered ?_
        · rw [(Listening.unheard hlistening').bufUsed, hunheard.bufUsed]
        · rw [hlog, hsilent]
          rfl
  | talking hh =>
      have htrace : Trace (EndpointStep Heard fun _ => True) e log e' :=
        run_trace hin (fun _ _ _ => trivial) hrun
      have hspeaks := trace_speaks htrace hh
      exact ⟨.talking hspeaks.hears, hspeaks.edge, hspeaks.limit, hspeaks.sent⟩

theorem Hearing.scales (h : Hearing e) : Scales e.tcb := by
  have hnot : ∀ state, e.tcb.state = state → state ≠ .synRecv → state ≠ .established →
      ¬ Receiving e.tcb := by
    rintro _ rfl hrecv hest (hother | hother)
    · exact hrecv hother
    · exact hest hother
  cases h with
  | closed hstate hunheard =>
      exact ⟨hunheard.tuned, fun hreceiving =>
        absurd hreceiving (hnot _ hstate (by decide) (by decide))⟩
  | listening hlistening =>
      exact ⟨(Listening.unheard hlistening).tuned, fun hreceiving =>
        absurd hreceiving (hnot _ hlistening.state (by decide) (by decide))⟩
  | talking hh => exact hh.scales

/-- The window a sender holds, when its peer has put together the stream up to `edge`. -/
structure Governed (edge limit : Nat) (tcb : Tcb) : Prop where
  window : Receiving tcb → tcb.sndUna.toNat + tcb.sndWnd.toNat ≤ 1 + limit
  una : Receiving tcb → tcb.sndUna.toNat < 2 ^ 31
  opening : tcb.state = .synRecv → tcb.sndWnd.toNat ≤ limit
  opened : tcb.state = .established → tcb.sndUna ≠ 0
  early : tcb.state ≠ .established → edge = 0

theorem Governed.same (h : Governed edge limit tcb) (huna : tcb'.sndUna = tcb.sndUna)
    (hwnd : tcb'.sndWnd = tcb.sndWnd) (hstate : tcb'.state = tcb.state) :
    Governed edge limit tcb' := by
  have hreceiving : Receiving tcb' → Receiving tcb := by
    rw [Receiving, hstate]
    exact id
  refine ⟨fun h' => ?_, fun h' => ?_, fun h' => ?_, fun h' => ?_, fun h' => ?_⟩
  · rw [huna, hwnd]
    exact h.window (hreceiving h')
  · rw [huna]
    exact h.una (hreceiving h')
  · rw [hwnd]
    exact h.opening (hstate.symm.trans h')
  · rw [huna]
    exact h.opened (hstate.symm.trans h')
  · exact h.early fun hest => h' (hstate.trans hest)

theorem windowOf_syn (hflag : hasFlag seg.hdr.thFlags thSyn = true) :
    windowOf seg ≤ recvBufSize.toNat := by
  have hsize : recvBufSize.toNat = 1048576 := rfl
  have hwin := seg.hdr.thWin.isLt
  rw [windowOf, if_pos hflag]
  omega

/-- An acknowledgment of a position that the peer has reached. -/
theorem seqOf_bounds {pos : Nat} (hpos : pos ≤ edge) (hedge : edge < 2 ^ 31 - 1) :
    (seqOf pos).toNat = pos + 1 ∧ seqOf pos ≠ 0 := by
  have hword := @toNat_seqOf pos (by omega)
  refine ⟨hword, fun hzero => ?_⟩
  rw [hzero] at hword
  exact absurd hword (Nat.succ_ne_zero pos).symm

theorem validAck_zero (huna : tcb.sndUna.toNat < 2 ^ 31) : validAck tcb 0 = false := by
  have hbehind : seqGt 0 tcb.sndUna = false := by
    rw [seqGt, decide_eq_false_iff_not, sub_pos_iff (by decide) (by omega)]
    exact Nat.not_lt_zero _
  rw [validAck, hbehind, Bool.false_and]

theorem ackStep_governed (hedge : edge < 2 ^ 31 - 1) (hsize : recvBufSize.toNat ≤ limit)
    (h : AckStep (Honest edge limit) tcb log tcb') (hreceiving : Receiving tcb) (hs : Scales tcb)
    (hg : Governed edge limit tcb) : Governed edge limit tcb' := by
  have henabled := hs.enabled hreceiving
  cases h with
  | ack seg hseg hack =>
      cases hseg.offers with
      | syn hflag hbare hzero =>
          rw [hzero, validAck_zero (hg.una hreceiving)] at hack
          exact absurd hack (by decide)
      | ack pos hpos hthAck hwindow =>
          obtain ⟨hword, hne⟩ := seqOf_bounds hpos hedge
          have hwnd : (acceptAck tcb seg.hdr).sndWnd.toNat = windowOf seg :=
            hs.tuned.getScaledWin henabled seg
          have huna : (acceptAck tcb seg.hdr).sndUna = seqOf pos := hthAck
          have hword' : (acceptAck tcb seg.hdr).sndUna.toNat = pos + 1 := by rw [huna, hword]
          refine ⟨fun _ => by omega, fun _ => by omega, fun _ => by omega, fun _ => ?_, hg.early⟩
          rw [huna]
          exact hne
  | window seg hseg hack =>
      have hwnd : (getScaledWin tcb seg.hdr).toNat = windowOf seg :=
        hs.tuned.getScaledWin henabled seg
      cases hseg.offers with
      | syn hflag hbare hzero =>
          have hle := windowOf_syn hflag
          have huna : tcb.sndUna = 0 := hack.symm.trans hzero
          refine ⟨fun _ => ?_, hg.una, fun _ => ?_, hg.opened, hg.early⟩
          · change tcb.sndUna.toNat + (getScaledWin tcb seg.hdr).toNat ≤ _
            rw [huna, hwnd]
            change 0 + _ ≤ _
            omega
          · change (getScaledWin tcb seg.hdr).toNat ≤ _
            omega
      | ack pos hpos hthAck hwindow =>
          obtain ⟨hword, -⟩ := seqOf_bounds hpos hedge
          have huna : tcb.sndUna.toNat = pos + 1 := by rw [← hack, hthAck, hword]
          refine ⟨fun _ => ?_, hg.una, fun _ => ?_, hg.opened, hg.early⟩
          · change tcb.sndUna.toNat + (getScaledWin tcb seg.hdr).toNat ≤ _
            omega
          · change (getScaledWin tcb seg.hdr).toNat ≤ _
            omega
  | options env seg =>
      obtain ⟨_, _, _, _, heq⟩ := processWindowOption_eq env seg tcb
      rw [heq]
      exact hg.same rfl rfl rfl
  | sample rttUs =>
      obtain ⟨_, _, _, heq⟩ := utcpXmitTimer_eq tcb rttUs
      rw [heq]
      exact hg.same rfl rfl rfl
  | rearm env =>
      obtain ⟨_, _, heq⟩ := rearmRexmt_eq env tcb
      rw [heq]
      exact hg.same rfl rfl rfl
  | congestion => exact hg.same rfl rfl rfl
  | retransmit => exact hg

theorem getScaledWin_syn (hflag : hasFlag seg.hdr.thFlags thSyn = true) (tcb : Tcb) :
    (getScaledWin tcb seg.hdr).toNat = windowOf seg := by
  rw [getScaledWin, windowOf, hflag, Bool.not_true, Bool.and_false, if_neg Bool.false_ne_true,
    if_pos rfl, BitVec.toNat_setWidth, Nat.mod_eq_of_lt]
  have hwin := seg.hdr.thWin.isLt
  omega

theorem openStep_governed (hedge : edge < 2 ^ 31 - 1) (hsize : recvBufSize.toNat ≤ limit)
    (h : OpenStep (Honest edge limit) tcb log tcb') (hg : Governed edge limit tcb) : Governed edge limit tcb' := by
  cases h with
  | connect ip port hclosed =>
      have hnot : ¬ Receiving { tcb with
          dstIp := ip, dstPort := port, dstUdpPort := 1970, state := .synSent } := by
        rintro (hother | hother) <;> cases hother
      refine ⟨fun h => absurd h hnot, fun h => absurd h hnot, ?_, ?_, fun _ => ?_⟩
      · rintro ⟨⟩
      · rintro ⟨⟩
      · exact hg.early (by rw [hclosed]; decide)
  | syn env seg peer hseg hlisten hflag =>
      have hwnd : (acceptSyn env tcb seg peer).sndWnd.toNat = windowOf seg := getScaledWin_syn hflag _
      have hle := windowOf_syn hflag
      have huna : (acceptSyn env tcb seg peer).sndUna.toNat = 0 := rfl
      refine ⟨fun _ => by omega, fun _ => by omega, fun _ => by omega, ?_, fun _ => ?_⟩
      · rintro ⟨⟩
      · exact hg.early (by rw [hlisten]; decide)
  | synAck env seg hseg hsent hawaited =>
      rw [isAwaitedSynAck, Bool.and_eq_true, Bool.and_eq_true] at hawaited
      obtain ⟨⟨hsyn, hflag⟩, -⟩ := hawaited
      cases hseg.offers with
      | syn _ hbare => exact absurd (hbare.symm.trans hflag) (by decide)
      | ack pos hpos hthAck hwindow =>
          obtain ⟨hword, hne⟩ := seqOf_bounds hpos hedge
          have hstate := acceptSynAck_state env tcb seg
          have hwnd : (acceptSynAck env tcb seg).sndWnd.toNat = windowOf seg := getScaledWin_syn hsyn _
          have huna : (acceptSynAck env tcb seg).sndUna = seqOf pos := by
            obtain ⟨_, _, _, _, heq⟩ := processWindowOption_eq env seg
              { tcb with
                sndUna := seg.hdr.thAck
                irs := seg.hdr.thSeq
                rcvNxt := seg.hdr.thSeq + 1
                state := .established }
            rw [acceptSynAck, heq]
            exact hthAck
          have hword' : (acceptSynAck env tcb seg).sndUna.toNat = pos + 1 := by rw [huna, hword]
          refine ⟨fun _ => by omega, fun _ => by omega, fun hother => ?_, fun _ => ?_,
            fun hnot => absurd hstate hnot⟩
          · exact absurd (hother.symm.trans hstate) (by decide)
          · rw [huna]
            exact hne
  | finalAck seg hseg hrecv hcompletes =>
      have hzero := hg.early (by rw [hrecv]; decide)
      have hflag : hasFlag seg.hdr.thFlags thAck = true := by
        rw [completesHandshake, Bool.and_eq_true] at hcompletes
        exact hcompletes.1
      cases hseg.offers with
      | syn _ hbare => exact absurd (hbare.symm.trans hflag) (by decide)
      | ack pos hpos hthAck hwindow =>
          obtain ⟨hword, hne⟩ := seqOf_bounds hpos hedge
          have hwnd := hg.opening hrecv
          have huna : (acceptFinalAck tcb seg).sndUna = seqOf pos := hthAck
          have hword' : (acceptFinalAck tcb seg).sndUna.toNat = pos + 1 := by rw [huna, hword]
          have hsame : (acceptFinalAck tcb seg).sndWnd = tcb.sndWnd := rfl
          refine ⟨fun _ => ?_, fun _ => by omega, ?_, fun _ => ?_, fun hnot => absurd rfl hnot⟩
          · rw [hsame]
            omega
          · rintro ⟨⟩
          · rw [huna]
            exact hne

theorem tcbStep_governed (hedge : edge < 2 ^ 31 - 1) (hsize : recvBufSize.toNat ≤ limit)
    (h : TcbStep (Honest edge limit) Ex tcb log tcb') (hs : Scales tcb)
    (hg : Governed edge limit tcb) : Governed edge limit tcb' := by
  cases h with
  | output h =>
      obtain ⟨_, _, _, _, _, _, _, rfl⟩ := outputTrace_eq (.single h)
      exact hg.same rfl rfl rfl
  | receive _ h =>
      obtain ⟨_, _, _, _, _, rfl⟩ := receiveTrace_eq (.single h)
      exact hg.same rfl rfl rfl
  | ack hreceiving h => exact ackStep_governed hedge hsize h hreceiving hs hg
  | timer h =>
      cases h with
      | rexmt env recover =>
          obtain ⟨_, _, heq⟩ := expireRexmt_eq env tcb recover
          rw [heq]
          exact hg.same rfl rfl rfl
      | clock => exact hg.same rfl rfl rfl
      | countDown => exact hg.same rfl rfl rfl
      | other => exact hg.same rfl rfl rfl
  | opening h => exact openStep_governed hedge hsize h hg

theorem endpointStep_governed (hedge : edge < 2 ^ 31 - 1) (hsize : recvBufSize.toNat ≤ limit)
    (h : EndpointStep (Honest edge limit) Ex e log e')
    (hboth : Scales e.tcb ∧ Governed edge limit e.tcb) :
    Scales e'.tcb ∧ Governed edge limit e'.tcb := by
  obtain ⟨hs, hg⟩ := hboth
  cases h with
  | tcb h =>
      exact ⟨tcbStep_scales (fun _ hseg => hseg.wired) h hs, tcbStep_governed hedge hsize h hs hg⟩
  | call => exact ⟨hs, hg⟩
  | write => exact ⟨hs.same rfl rfl rfl id, hg.same rfl rfl rfl⟩
  | read k =>
      obtain ⟨_, _, heq⟩ := takeBytes_eq e.tcb k
      dsimp only
      rw [heq]
      exact ⟨hs.same rfl rfl rfl id, hg.same rfl rfl rfl⟩

theorem run_governed (hedge : edge < 2 ^ 31 - 1) (hsize : recvBufSize.toNat ≤ limit)
    (hin : ∀ env seg peer, s = .input env seg peer → Honest edge limit seg) (hs : Scales e.tcb)
    (hg : Governed edge limit e.tcb) (hrun : e.run s = some (e', log)) :
    Governed edge limit e'.tcb := by
  have htrace : Trace (EndpointStep (Honest edge limit) fun _ => True) e log e' :=
    run_trace hin (fun _ _ _ => trivial) hrun
  exact (htrace.invariant (I := fun e => Scales e.tcb ∧ Governed edge limit e.tcb)
    (fun _ _ _ hstep hboth => endpointStep_governed hedge hsize hstep hboth) ⟨hs, hg⟩).2

/-- A segment of `utcp_output` with data ends at or below a right edge that is not far. -/
def EndsBelow (limit : Nat) (event : Event) : Prop :=
  ∀ timeUs seg, event = .sent .output timeUs seg → payload seg ≠ [] →
    ∃ pos, seg.hdr.thSeq + BitVec.ofNat 32 (payload seg).length = seqOf pos ∧ pos ≤ limit ∧
      limit ≤ pos + 2 ^ 21

theorem endsBelow_silent (hlog : ∀ timeUs seg, .sent .output timeUs seg ∉ log) :
    ∀ event ∈ log, EndsBelow limit event := by
  rintro event hevent timeUs seg rfl
  exact absurd hevent (hlog timeUs seg)

theorem outputStep_endsBelow (h : OutputStep tcb log tcb') {written : List U8}
    (hp : Positioned written tcb) (hg : Governed edge limit tcb)
    (hfar : limit ≤ written.length + recvBufSize.toNat) : ∀ event ∈ log, EndsBelow limit event := by
  obtain ⟨una, nxt, top, hsmall, hs⟩ := hp
  have hsize : recvBufSize.toNat = 1048576 := rfl
  have hsize' : sendBufSize.toNat = 1048576 := rfl
  cases h with
  | flags => exact endsBelow_silent (by simp)
  | delack => exact endsBelow_silent (by simp)
  | bare timeUs hlen hsyn =>
      rintro event hevent timeUs' seg rfl hdata
      rcases List.mem_cons.mp hevent with hother | hevent
      · cases hother
      · cases List.mem_singleton.mp hevent
        exact absurd (List.eq_nil_of_length_eq_zero
          (payload_length_buildSegment _ _ _ _ 0 (by decide))) hdata
  | advance timeUs newSynFin hsyn hadvance =>
      rintro event hevent timeUs' seg rfl hdata
      rcases List.mem_cons.mp hevent with hother | hevent
      · cases hother
      · cases List.mem_singleton.mp hevent
        have hlen := payload_length_buildSegment timeUs tcb tcb.sndNxt (tcpOutflags tcb.state)
          (outputLength tcb) (outputLength_le tcb)
        have hpos : 0 < (outputLength tcb).toNat := by
          rw [← hlen]
          exact List.length_pos_of_ne_nil hdata
        obtain ⟨hfits, -, -⟩ := outputLength_bounds hpos
        have hun := hs.una_le
        have hnxt := hs.nxt_le
        have hroom := hs.room
        have hflight : (tcb.sndNxt - tcb.sndUna).toNat = nxt - una := by
          rw [hs.sndNxt, hs.sndUna]
          exact seqOf_sub_seqOf hs.una_le (by omega)
        have hword : tcb.sndUna.toNat = una + 1 := by
          rw [hs.sndUna]
          exact toNat_seqOf (by omega)
        have hwindow := hg.window (.inr hs.state)
        have hwnd : (sendWindow tcb).toNat ≤ tcb.sndWnd.toNat := by
          rw [sendWindow_toNat]
          exact Nat.min_le_left _ _
        refine ⟨nxt + (outputLength tcb).toNat, ?_, by omega, by omega⟩
        rw [hlen, ← seqOf_add, ← hs.sndNxt]
        rfl

theorem ackStep_silent {In : TcpSegment → Prop} (h : AckStep In tcb log tcb') (timeUs : U64) :
    .sent .output timeUs seg ∉ log := by
  cases h with
  | rearm env =>
      unfold rearmRexmt
      split
      · simp
      · dsimp only
        split <;> simp
  | retransmit reading =>
      unfold utcpRetransmitSegment utcpSendSegment
      split
      · simp
      · split <;> simp
  | _ => simp

theorem endpointStep_endsBelow {In : TcpSegment → Prop} (h : EndpointStep In Ex e log e')
    (hp : Positioned e.written e.tcb) (hg : Governed edge limit e.tcb)
    (hfar : limit ≤ e.written.length + recvBufSize.toNat) : ∀ event ∈ log, EndsBelow limit event := by
  cases h with
  | tcb h =>
      cases h with
      | output h => exact outputStep_endsBelow h hp hg hfar
      | ack _ h => exact endsBelow_silent fun timeUs seg => ackStep_silent h timeUs
      | receive _ h => cases h <;> exact endsBelow_silent (by simp)
      | timer h => cases h <;> exact endsBelow_silent (by simp)
      | opening h => cases h <;> exact endsBelow_silent (by simp)
  | _ => exact endsBelow_silent (by simp)

/-- What an established sender puts on the wire in one section. -/
theorem run_endsBelow (hedge : edge < 2 ^ 31 - 1) (hsize : recvBufSize.toNat ≤ limit)
    (hin : ∀ env seg peer, s = .input env seg peer → Honest edge limit seg)
    (hp : Positioned e.written e.tcb) (hs : Scales e.tcb) (hg : Governed edge limit e.tcb)
    (hfar : limit ≤ e.written.length + recvBufSize.toNat) (hlen : e'.written.length < 2 ^ 31 - 1)
    (hrun : e.run s = some (e', log)) : ∀ event ∈ log, EndsBelow limit event := by
  have htrace : Trace (EndpointStep (Honest edge limit) fun _ => True) e log e' :=
    run_trace hin (fun _ _ _ => trivial) hrun
  refine (@Trace.events_under _ _ _ (fun e => Positioned e.written e.tcb ∧
    (Scales e.tcb ∧ Governed edge limit e.tcb) ∧ limit ≤ e.written.length + recvBufSize.toNat)
    (fun e => e.written.length < 2 ^ 31 - 1) (EndsBelow limit) ?_ ?_ _ _ _ htrace hlen
    ⟨hp, ⟨hs, hg⟩, hfar⟩).2
  · exact fun e log e' hstep hlen =>
      Nat.lt_of_le_of_lt (endpointStep_written hstep).length_le hlen
  · rintro e log e' hstep hlen ⟨hp, hboth, hfar⟩
    have hmore := (endpointStep_written hstep).length_le
    refine ⟨⟨(endpointStep_positioned hstep (.inr hlen) hp).1,
      endpointStep_governed hedge hsize hstep hboth, by omega⟩, ?_⟩
    exact endpointStep_endsBelow hstep hp hboth.2 hfar

/-- The endpoints and what is in flight between them, when they are going to write no more
than the two streams. -/
structure Flows (stream : Side → List U8) (n : Net) : Prop where
  hearing : ∀ x, Hearing (n.endpoint x)
  receives : ∀ x, Receives (Agrees 0 (stream x.other)) (n.endpoint x)
  parts : ∀ x, ∀ seg ∈ n.inbox x, PartOf (stream x.other) seg
  honest : ∀ x, ∀ seg ∈ n.inbox x,
    Honest (edgeOf (n.endpoint x.other)) (limitOf (n.endpoint x.other)) seg

variable {stream : Side → List U8}

theorem flows_initial (h : n.Initial) : Flows stream n := by
  obtain ⟨ip, port, ip', port', hclient, hserver, hinbox⟩ := h
  have hnothing : ∀ x, n.inbox x = [] := fun x => congrFun hinbox x
  have hscale : windowScale 14 0 = 5 := by decide
  refine ⟨fun x => ?_, fun x => ?_, fun x => ?_, fun x => ?_⟩
  · cases x with
    | client =>
        rw [hclient]
        exact .closed rfl ⟨⟨rfl, rfl, rfl, rfl⟩, rfl, hscale, by rintro ⟨⟩⟩ rfl
    | server =>
        rw [hserver]
        exact .listening ⟨ip', port', 0, rfl⟩ rfl
  · cases x with
    | client => exact receives_start ⟨ip, port, .inl hclient⟩
    | server => exact receives_start ⟨ip', port', .inr hserver⟩
  · rw [hnothing]
    simp
  · rw [hnothing]
    simp

theorem Hearing.hears (h : Hearing e) (hstate : Receiving e.tcb) : Hears e.delivered.length e.tcb := by
  have hnot : ∀ state, e.tcb.state = state → state = .synRecv ∨ state = .established := by
    rintro _ rfl
    exact hstate
  cases h with
  | closed hclosed => exact absurd (hnot _ hclosed) (by decide)
  | listening hlistening => exact absurd (hnot _ hlistening.state) (by decide)
  | talking hh => exact hh

theorem Flows.ran (h : Flows stream n) (hsmall : ∀ x, (stream x).length < 2 ^ 31 - 1) {x : Side}
    (hstands : Stands (n.endpoint x)) (hprompt : Prompt (n.endpoint x) s)
    (hinput : ∀ env seg peer, s = .input env seg peer → seg ∈ n.inbox x)
    (hrun : (n.endpoint x).run s = some (n'.endpoint x, log))
    (hother : n'.endpoint x.other = n.endpoint x.other)
    (hflight : ∀ y, ∀ seg ∈ n'.inbox y, seg ∈ n.inbox y ∨ y = x.other ∧ seg ∈ segments log)
    (hle : (n'.endpoint x).written <+: stream x) : Flows stream n' := by
  have hpart : ∀ env seg peer, s = .input env seg peer → PartOf (stream x.other) seg :=
    fun env seg peer heq => h.parts x seg (hinput env seg peer heq)
  have hheard : ∀ env seg peer, s = .input env seg peer → Heard seg := by
    intro env seg peer heq
    have hp := hpart env seg peer heq
    exact ⟨(h.honest x seg (hinput env seg peer heq)).wired, payload_lt (hsmall _) hp, hp.syn⟩
  have hfew : (n'.endpoint x).written.length < 2 ^ 31 - 1 :=
    Nat.lt_of_le_of_lt hle.length_le (hsmall x)
  have hreplies := run_replies (h.hearing x) hheard hrun
  obtain ⟨-, hemits⟩ := run_lands hstands hprompt (.inr hfew) hrun
  have hreceives : Receives (Agrees 0 (stream x.other)) (n'.endpoint x) := by
    refine run_receives (h.receives x) (fun env seg peer heq hstate => ?_) hrun
    rw [(((h.hearing x).hears hstate).after hstate).1]
    exact PartOf.inStream (hsmall _) (hpart env seg peer heq) (edgeOf_le (h.receives x))
  have hsides := x.self_or_other
  refine ⟨fun y => ?_, fun y => ?_, fun y seg hseg => ?_, fun y seg hseg => ?_⟩
  · rcases hsides y with rfl | rfl
    · exact hreplies.hearing
    · rw [hother]
      exact h.hearing _
  · rcases hsides y with rfl | rfl
    · exact hreceives
    · rw [hother]
      exact h.receives _
  · rcases hflight y seg hseg with hold | ⟨rfl, hnew⟩
    · exact h.parts y seg hold
    · obtain ⟨origin, timeUs, hsent⟩ := mem_segments.mp hnew
      rw [Side.other_other]
      exact (hemits _ hsent origin timeUs seg rfl).mono hle
  · rcases hflight y seg hseg with hold | ⟨rfl, hnew⟩
    · rcases hsides y with rfl | rfl
      · rw [hother]
        exact h.honest y seg hold
      · have hbefore := h.honest _ seg hold
        rw [Side.other_other] at hbefore ⊢
        exact hbefore.mono hreplies.edge hreplies.limit
    · rw [Side.other_other]
      exact hreplies.sent seg hnew

theorem reached_stands_everywhere (h : ReachedBy network (Everywhere Prompt) n) {x : Side}
    (hsmall : (n.endpoint x).written.length < 2 ^ 31 - 1) : Stands (n.endpoint x) :=
  (reached_stands (endpoint_everywhere h x) (.inr hsmall)).1

theorem reached_flows (hsmall : ∀ x, (stream x).length < 2 ^ 31 - 1)
    (h : ReachedBy network (Everywhere Prompt) n) :
    (∀ x, (n.endpoint x).written <+: stream x) → Flows stream n := by
  refine @ReachedBy.invariant_under _ _ network (Everywhere Prompt) (Flows stream)
    (fun n => ∀ x, (n.endpoint x).written <+: stream x) (fun n hinit => flows_initial hinit)
    ?_ ?_ _ h
  · intro n a n' hstep hle x
    exact (step_written hstep x).trans (hle x)
  · intro n a n' hreach hflows hok hle hstep
    cases Net.step_endpoints hstep hok with
    | ran x s log hinput hrun hother hflight hprompt =>
        have hmore := (step_written hstep x).trans (hle x)
        have hstands := reached_stands_everywhere hreach
          (Nat.lt_of_le_of_lt hmore.length_le (hsmall x))
        exact hflows.ran hsmall hstands hprompt hinput hrun hother hflight (hle x)
    | still hsame hflight =>
        refine ⟨fun x => ?_, fun x => ?_, fun x seg hseg => ?_, fun x seg hseg => ?_⟩
        · rw [hsame]
          exact hflows.hearing x
        · rw [hsame]
          exact hflows.receives x
        · exact hflows.parts x seg (hflight x seg hseg)
        · rw [hsame]
          exact hflows.honest x seg (hflight x seg hseg)

theorem flows_self (h : ReachedBy network (Everywhere Prompt) n)
    (hsmall : ∀ x, (n.endpoint x).written.length < 2 ^ 31 - 1) :
    Flows (fun x => (n.endpoint x).written) n :=
  reached_flows hsmall h fun _ => List.prefix_rfl

theorem edge_written (h : ReachedBy network (Everywhere Prompt) n)
    (hsmall : ∀ x, (n.endpoint x).written.length < 2 ^ 31 - 1) (x : Side) :
    edgeOf (n.endpoint x.other) ≤ (n.endpoint x).written.length := by
  have hedge := edgeOf_le ((flows_self h hsmall).receives x.other)
  rw [Side.other_other] at hedge
  exact hedge

theorem Governed.mono {edge' limit' : Nat} (h : Governed edge limit tcb) (hlimit : limit ≤ limit')
    (hearly : tcb.state ≠ .established → edge' = 0) : Governed edge' limit' tcb :=
  ⟨fun hstate => Nat.le_trans (h.window hstate) (Nat.add_le_add_left hlimit 1), h.una,
    fun hstate => Nat.le_trans (h.opening hstate) hlimit, h.opened, hearly⟩

/-- The edge and the limit of the peer of `x`. -/
def GovernedBy (n : Net) (x : Side) : Prop :=
  Governed (edgeOf (n.endpoint x.other)) (limitOf (n.endpoint x.other)) (n.tcb x)

theorem limit_large (e : Endpoint) : recvBufSize.toNat ≤ limitOf e := Nat.le_add_left _ _

theorem Fresh.notReceiving (h : e.Fresh) : ¬ Receiving e.tcb := by
  obtain ⟨ip, port, rfl | rfl⟩ := h
  · rintro (hother | hother) <;> cases hother
  · rintro (hother | hother) <;> cases hother

theorem initial_fresh (h : n.Initial) (x : Side) : (n.endpoint x).Fresh := by
  obtain ⟨ip, port, ip', port', hclient, hserver, -⟩ := h
  cases x with
  | client => exact ⟨ip, port, .inl hclient⟩
  | server => exact ⟨ip', port', .inr hserver⟩

theorem reached_governed (h : ReachedBy network (Everywhere Prompt) n) :
    (∀ x, (n.endpoint x).written.length < 2 ^ 31 - 1) → ∀ x, GovernedBy n x := by
  refine @ReachedBy.invariant_under _ _ network (Everywhere Prompt) (fun n => ∀ x, GovernedBy n x)
    (fun n => ∀ x, (n.endpoint x).written.length < 2 ^ 31 - 1) ?_ ?_ ?_ _ h
  · intro n hinit x
    have hnot := Fresh.notReceiving (initial_fresh hinit x)
    have hother := initial_fresh hinit x.other
    have hreceives : Receives (Agrees 0 []) (n.endpoint x.other) := receives_start hother
    exact ⟨fun hstate => absurd hstate hnot, fun hstate => absurd hstate hnot,
      fun hstate => absurd (.inl hstate) hnot, fun hstate => absurd (.inr hstate) hnot,
      fun _ => edgeOf_of_closed hreceives (Fresh.notReceiving hother)⟩
  · intro n a n' hstep hsmall x
    exact Nat.lt_of_le_of_lt (step_written hstep x).length_le (hsmall x)
  · intro n a n' hreach hgoverned hok hsmall' hstep
    have hsmall : ∀ x, (n.endpoint x).written.length < 2 ^ 31 - 1 := fun x =>
      Nat.lt_of_le_of_lt (step_written hstep x).length_le (hsmall' x)
    have hreach' : ReachedBy network (Everywhere Prompt) n' := .step hreach hok hstep
    have hflows := flows_self hreach hsmall
    have hflows' := flows_self hreach' hsmall'
    cases Net.step_endpoints hstep hok with
    | ran x s log hinput hrun hother hflight hprompt =>
        have hedge := edge_written hreach hsmall x
        have hin : ∀ env seg peer, s = .input env seg peer →
            Honest (edgeOf (n.endpoint x.other)) (limitOf (n.endpoint x.other)) seg :=
          fun env seg peer heq => hflows.honest x seg (hinput env seg peer heq)
        intro y
        rcases x.self_or_other y with rfl | rfl
        · rw [GovernedBy, hother]
          exact run_governed (Nat.lt_of_le_of_lt hedge (hsmall _)) (limit_large _) hin
            (hflows.hearing _).scales (hgoverned _) hrun
        · have hkept : n'.tcb x.other = n.tcb x.other := congrArg Endpoint.tcb hother
          have hbefore := hgoverned x.other
          have hmore : limitOf (n.endpoint x) ≤ limitOf (n'.endpoint x) :=
            Nat.add_le_add_right (run_delivered hrun) _
          rw [GovernedBy, Side.other_other] at hbefore ⊢
          rw [hkept]
          refine hbefore.mono hmore fun hnot => ?_
          have hnone := (reached_stands_everywhere hreach' (hsmall' x.other)).unwritten
            (by rw [hother]; exact hnot)
          have hedge' := edge_written hreach' hsmall' x.other
          rw [Side.other_other, hnone] at hedge'
          exact Nat.le_zero.mp hedge'
    | still hsame hflight =>
        intro x
        rw [GovernedBy, Net.tcb, hsame]
        exact hgoverned x

/-- The right edge of the receive window. -/
def rightEdge (tcb : Tcb) : U32 := tcb.rcvNxt + recvBufSize - bufUsed tcb

/-- The window of `x` does not lie beyond the right edge of its peer. -/
def WithinEdge (n : Net) (x : Side) : Prop :=
  seqLeq ((n.tcb x).sndUna + (n.tcb x).sndWnd) (rightEdge (n.tcb x.other)) = true

/-- The data segments of `utcp_output` among some events end at or below an edge. -/
def EmitsWithin (edge : U32) (log : List Event) : Prop :=
  ∀ timeUs seg, .sent .output timeUs seg ∈ log → payload seg ≠ [] →
    seqLeq (seg.hdr.thSeq + BitVec.ofNat 32 (payload seg).length) edge = true

theorem seqLeq_seqOf {pos : Nat} (hle : pos ≤ limit) (hnear : limit ≤ pos + 2 ^ 21) :
    seqLeq (seqOf pos) (seqOf limit) = true := by
  have hzero : (seqOf pos - seqOf pos).toNat = 0 := toNat_sub_self _
  have hsub : (seqOf limit - seqOf pos).toNat = limit - pos := by
    have hwords := @toNat_ofNat_sub_ofNat 32 0#32 (limit + 1) (pos + 1) (by omega) (by omega)
    rw [BitVec.zero_add, BitVec.zero_add, Nat.add_sub_add_right] at hwords
    exact hwords
  rw [Reassembly.seqLeq_iff (seqOf pos) (by omega) (by omega), hzero]
  exact Nat.zero_le _

theorem Hears.rightEdge (h : Hears d tcb) (hstate : Receiving tcb) :
    rightEdge tcb = seqOf (d + recvBufSize.toNat) := by
  have hused : BitVec.ofNat 32 (bufUsed tcb).toNat = bufUsed tcb := BitVec.ofNat_toNat ..
  have hsize : BitVec.ofNat 32 recvBufSize.toNat = recvBufSize := BitVec.ofNat_toNat ..
  calc FlowControl.rightEdge tcb
      = seqOf d + bufUsed tcb + recvBufSize - bufUsed tcb := by
        rw [FlowControl.rightEdge, (h.after hstate).2, ← seqOf_add, hused]
    _ = seqOf d + recvBufSize + bufUsed tcb - bufUsed tcb := by
        rw [BitVec.add_assoc, BitVec.add_comm (bufUsed tcb), ← BitVec.add_assoc]
    _ = seqOf (d + recvBufSize.toNat) := by
        rw [BitVec.add_sub_cancel, ← seqOf_add, hsize]

theorem Hearing.rightEdge (h : Hearing e) (hstate : Receiving e.tcb) :
    rightEdge e.tcb = seqOf (limitOf e) :=
  (h.hears hstate).rightEdge hstate

theorem Governed.within (h : Governed edge limit tcb) {written : List U8}
    (hp : Positioned written tcb) (hfar : limit ≤ written.length + recvBufSize.toNat)
    (hlen : written.length < 2 ^ 31 - 1) :
    seqLeq (tcb.sndUna + tcb.sndWnd) (seqOf limit) = true := by
  obtain ⟨una, nxt, top, -, hs⟩ := hp
  have hsize : recvBufSize.toNat = 1048576 := rfl
  have hsize' : sendBufSize.toNat = 1048576 := rfl
  have huna := hs.una_le
  have hnxt := hs.nxt_le
  have htop := hs.top_le
  have hroom := hs.room
  have hwindow := h.window (.inr hs.state)
  have hword : tcb.sndUna.toNat = una + 1 := by
    rw [hs.sndUna]
    exact toNat_seqOf (by omega)
  have hwnd : BitVec.ofNat 32 tcb.sndWnd.toNat = tcb.sndWnd := BitVec.ofNat_toNat ..
  rw [hs.sndUna, ← hwnd, seqOf_add]
  exact seqLeq_seqOf (by omega) (by omega)

theorem emits_unwritten (hemits : ∀ event ∈ log, EmitsParts [] event) (edge : U32) :
    EmitsWithin edge log := by
  intro timeUs seg hsent hdata
  rcases (hemits _ hsent .output timeUs seg rfl).slice with hempty | ⟨pos, -, hslice⟩
  · exact absurd hempty hdata
  · rw [List.drop_nil] at hslice
    exact absurd (List.prefix_nil.mp hslice) hdata

theorem step_emits (h : ReachedBy network (Everywhere Prompt) n) (hok : Everywhere Prompt n a)
    (hstep : n.step a = some n') (hsmall' : ∀ x, (n'.endpoint x).written.length < 2 ^ 31 - 1)
    {x : Side} (hstate : Receiving (n'.tcb x.other))
    (hhistory : (n'.endpoint x).history = (n.endpoint x).history ++ log) :
    EmitsWithin (rightEdge (n'.tcb x.other)) log := by
  have hsmall : ∀ x, (n.endpoint x).written.length < 2 ^ 31 - 1 := fun x =>
    Nat.lt_of_le_of_lt (step_written hstep x).length_le (hsmall' x)
  have hflows := flows_self h hsmall
  have hflows' := flows_self (.step h hok hstep) hsmall'
  have hsilent : n'.endpoint x = n.endpoint x → EmitsWithin (rightEdge (n'.tcb x.other)) log := by
    intro hsame timeUs seg hsent
    rw [hsame, List.self_eq_append_right] at hhistory
    rw [hhistory] at hsent
    cases hsent
  cases Net.step_endpoints hstep hok with
  | still hsame hflight => exact hsilent (congrFun hsame x)
  | ran y s log' hinput hrun hother hflight hprompt =>
      rcases y.self_or_other x with rfl | rfl
      swap
      · exact hsilent hother
      obtain ⟨out, -, -, -, hran⟩ := run_cases hrun
      obtain rfl : log = log' := List.append_cancel_left (hhistory.symm.trans hran)
      have hstands := reached_stands_everywhere h (hsmall x)
      by_cases hbefore : (n.tcb x).state = .established
      · have hin : ∀ env seg peer, s = .input env seg peer →
            Honest (edgeOf (n.endpoint x.other)) (limitOf (n.endpoint x.other)) seg :=
          fun env seg peer heq => hflows.honest x seg (hinput env seg peer heq)
        have hedge := edge_written h hsmall x
        have hfar : limitOf (n.endpoint x.other) ≤
            (n.endpoint x).written.length + recvBufSize.toNat := by
          rw [limitOf]
          rw [edgeOf] at hedge
          omega
        have hbelow := run_endsBelow (Nat.lt_of_le_of_lt hedge (hsmall x)) (limit_large _) hin
          (hstands.positioned hbefore) (hflows.hearing x).scales (reached_governed h hsmall x) hfar
          (hsmall' x) hrun
        intro timeUs seg hsent hdata
        obtain ⟨pos, hend, hle, hnear⟩ := hbelow _ hsent timeUs seg rfl hdata
        rw [hend, (hflows'.hearing x.other).rightEdge hstate, hother]
        exact seqLeq_seqOf hle hnear
      · obtain ⟨-, hemits⟩ := run_lands hstands hprompt (.inr (hsmall' x)) hrun
        rw [run_unopened hbefore hrun, hstands.unwritten hbefore] at hemits
        exact emits_unwritten hemits _

/-- Flow control is safe while each end sends one SYN. -/
theorem flow_controlled (h : ReachedBy network (Everywhere Prompt) n) (hok : Everywhere Prompt n a)
    (hstep : n.step a = some n') (hgiven : ∀ x, (n'.endpoint x).handed.length < 2 ^ 31 - 1)
    (hstates : ∀ x, (n'.tcb x).state = .established) (x : Side) :
    WithinEdge n' x ∧
      ∀ log, (n'.endpoint x).history = (n.endpoint x).history ++ log →
        EmitsWithin (rightEdge (n'.tcb x.other)) log := by
  have hsmall' : ∀ x, (n'.endpoint x).written.length < 2 ^ 31 - 1 :=
    fun x => written_small (hgiven x)
  have hreach' : ReachedBy network (Everywhere Prompt) n' := .step h hok hstep
  have hstate' : Receiving (n'.tcb x.other) := .inr (hstates x.other)
  refine ⟨?_, fun log hhistory => step_emits h hok hstep hsmall' hstate' hhistory⟩
  have hedge := edge_written hreach' hsmall' x
  have hfar : limitOf (n'.endpoint x.other) ≤
      (n'.endpoint x).written.length + recvBufSize.toNat := by
    rw [limitOf]
    rw [edgeOf] at hedge
    omega
  have hpositioned := (reached_stands_everywhere hreach' (hsmall' x)).positioned (hstates x)
  rw [WithinEdge, ((flows_self hreach' hsmall').hearing x.other).rightEdge hstate']
  exact (reached_governed hreach' hsmall' x).within hpositioned hfar (hsmall' x)

/-- The server has a byte that nobody has read, and its ACK has arrived. -/
def answered : List Action :=
  connecting ++ [.run .client oneByte, .duplicate .server 0, .deliver .server (.still 0) 0,
    .deliver .server (.still 0) 0, .deliver .client (.still 0) 0]

/-- Two more bytes. -/
def twoBytes : Section := .send (fun _ => .still 0) [65, 66]

theorem flow_controlled_answered :
    ∃ n n' : Net, n.step (.run .client twoBytes) = some n' ∧
      (n'.tcb .client).sndUna + (n'.tcb .client).sndWnd = 1048546 ∧
      rightEdge (n'.tcb .server) = 1048577 ∧ WithinEdge n' .client ∧
      ∃ log, (segments log).map payload = [[65, 66]] ∧ EmitsWithin (rightEdge (n'.tcb .server)) log := by
  have hrun : (runAll (guarded (Everywhere Prompt) Net.step) Net.start answered).map (fun n =>
      ((n.endpoint .client).run twoBytes).map fun result =>
        decide ((∀ x ∈ [Side.client, Side.server],
            ((n.finish .client result).tcb x).state = .established ∧
            ((n.finish .client result).endpoint x).handed.length < 2 ^ 31 - 1) ∧
          ((n.finish .client result).tcb .client).sndUna +
            ((n.finish .client result).tcb .client).sndWnd = 1048546 ∧
          rightEdge ((n.finish .client result).tcb .server) = 1048577 ∧
          (segments result.2).map payload = [[65, 66]])) = some (some true) := by
    decide +kernel
  obtain ⟨n, hn, hsent⟩ := Option.map_eq_some_iff.mp hrun
  obtain ⟨⟨e', log⟩, hresult, hcheck⟩ := Option.map_eq_some_iff.mp hsent
  obtain ⟨hboth, hright, hedge, hdata⟩ := of_decide_eq_true hcheck
  have hside : ∀ x, x ∈ [Side.client, Side.server] := by
    intro x
    cases x <;> decide
  have hreach : ReachedBy network (Everywhere Prompt) n :=
    .runGuarded (fun _ _ h => h) (fun _ _ _ h => h) _ (.init Net.start_initial) hn
  have hstep : n.step (.run .client twoBytes) = some (n.finish .client (e', log)) := by
    simp only [Net.step]
    rw [hresult]
    rfl
  obtain ⟨out, -, -, -, hhistory⟩ := run_cases hresult
  have hself : (n.finish .client (e', log)).endpoint .client = e' := finish_endpoint_self ..
  rw [← hself] at hhistory
  have hprompt : Everywhere Prompt n (.run .client twoBytes) := trivial
  obtain ⟨hwithin, hemits⟩ := flow_controlled hreach hprompt hstep
    (fun x => (hboth x (hside x)).2) (fun x => (hboth x (hside x)).1) .client
  exact ⟨n, _, hstep, hright, hedge, hwithin, log, hdata, hemits log hhistory⟩

end Utcp.FlowControl
