import Utcp.Receiver
import Utcp.Stalls

/-!
A closed receive window, and the reads that open it again.
-/

namespace Utcp.Reopening

open Traces
open SerialNumbers
open TransitionSystems
open Utcp.Tcp
open Utcp.Utils
open Utcp.Output
open Utcp.CongestionControl
open Utcp.Timers
open Utcp.Input
open Utcp.Api
open Utcp.Steps
open Utcp.Sections
open Utcp.Frames
open Utcp.SendLoop
open Utcp.Accounting
open Utcp.Receiver
open Utcp.SectionCases
open Utcp.Stalls

variable {env : Env} {tcb tcb' : Tcb} {seg : TcpSegment} {log : List Event}

theorem tcbStep_rcvScale {In : TcpSegment → Prop} {Ex : U8 → Prop}
    (h : TcbStep In Ex tcb log tcb') : tcb'.rcvScale = tcb.rcvScale := by
  cases h with
  | output h =>
      obtain ⟨_, _, _, _, _, _, _, rfl⟩ := outputTrace_eq (.single h)
      rfl
  | receive _ h =>
      obtain ⟨_, _, _, _, _, rfl⟩ := receiveTrace_eq (.single h)
      rfl
  | ack _ h =>
      cases h with
      | options env seg =>
          obtain ⟨_, _, _, _, heq⟩ := processWindowOption_eq env seg tcb
          rw [heq]
      | sample rttUs =>
          obtain ⟨_, _, _, heq⟩ := utcpXmitTimer_eq tcb rttUs
          rw [heq]
      | rearm env =>
          obtain ⟨_, _, heq⟩ := rearmRexmt_eq env tcb
          rw [heq]
          rfl
      | ack => rfl
      | window => rfl
      | congestion => rfl
      | retransmit => rfl
  | timer h =>
      cases h with
      | rexmt env recover =>
          obtain ⟨_, _, heq⟩ := expireRexmt_eq env tcb recover
          rw [heq]
      | clock => rfl
      | countDown => rfl
      | other => rfl
  | opening h =>
      cases h with
      | connect => rfl
      | syn env seg peer =>
          obtain ⟨_, _, _, _, heq⟩ := processWindowOption_eq env seg tcb
          rw [acceptSyn, heq]
      | synAck env seg =>
          obtain ⟨_, _, _, _, heq⟩ := processWindowOption_eq env seg
            { tcb with
              sndUna := seg.hdr.thAck
              irs := seg.hdr.thSeq
              rcvNxt := seg.hdr.thSeq + 1
              state := .established }
          rw [acceptSynAck, heq]
          rfl
      | finalAck => rfl

theorem endpointStep_rcvScale {In : TcpSegment → Prop} {Ex : U8 → Prop} {e e' : Endpoint}
    (h : EndpointStep In Ex e log e') : e'.tcb.rcvScale = e.tcb.rcvScale := by
  cases h with
  | tcb h => exact tcbStep_rcvScale h
  | call => rfl
  | write n => rfl
  | read n =>
      obtain ⟨_, _, heq⟩ := takeBytes_eq e.tcb n
      rw [heq]

theorem run_rcvScale {e e' : Endpoint} {s : Section} (h : e.run s = some (e', log)) :
    e'.tcb.rcvScale = e.tcb.rcvScale := by
  have htrace : Trace (EndpointStep (fun _ => True) fun _ => True) e log e' :=
    run_trace (fun _ _ _ _ => trivial) (fun _ _ _ => trivial) h
  exact htrace.invariant (I := fun e'' => e''.tcb.rcvScale = e.tcb.rcvScale)
    (fun _ _ _ hstep hs => (endpointStep_rcvScale hstep).trans hs) rfl

/-- The receive buffer fixes the scale: the smallest that lets 16 bits hold it. -/
theorem reached_rcvScale {ok : Endpoint → Section → Prop} {e : Endpoint}
    (h : ReachedBy endpoints ok e) : e.tcb.rcvScale = 5 := by
  apply h.invariant
  · rintro e ⟨_, _, rfl | rfl⟩
    · exact (by decide : windowScale 14 0 = 5)
    · exact (by decide : windowScale 14 0 = 5)
  · rintro e s e' - hscale - ⟨log, hrun⟩
    exact (run_rcvScale hrun).trans hscale

theorem outputTrace_windows (h : Trace OutputStep tcb log tcb') :
    ∀ seg ∈ segments log, seg.hdr.thFlags = tcpOutflags tcb.state ∧
      seg.hdr.thWin = setScaledWin tcb (tcpOutflags tcb.state) (currentFreeSpace tcb) := by
  induction h with
  | nil => simp
  | @cons tcb mid tcb' log log' hstep _ ih =>
      have hsame := outputStep_sameReceive hstep
      have hstate := outputStep_state hstep
      obtain ⟨_, _, _, _, _, _, _, heq⟩ := outputTrace_eq (.single hstep)
      have hwindow : setScaledWin mid (tcpOutflags mid.state) (currentFreeSpace mid) =
          setScaledWin tcb (tcpOutflags tcb.state) (currentFreeSpace tcb) := by
        rw [heq]
        rfl
      rw [hwindow, hstate] at ih
      intro seg hseg
      rw [segments_append] at hseg
      rcases List.mem_append.mp hseg with hseg | hseg
      · cases hstep with
        | flags => cases hseg
        | delack => cases hseg
        | bare =>
            obtain rfl := List.mem_singleton.mp hseg
            exact ⟨rfl, rfl⟩
        | advance =>
            obtain rfl := List.mem_singleton.mp hseg
            exact ⟨rfl, rfl⟩
      · exact ih seg hseg

theorem outputTurn_forced {reading : Reading} (flags : U8) (tcb : Tcb) (halloc : reading.alloc = true) :
    segments (outputTurn reading flags true tcb).1.log ≠ [] := by
  simp only [outputTurn, utcpSendSegment, halloc, if_true]
  split
  · rename_i hquiet
    exact absurd hquiet.2.2 (by decide)
  · simp [segments]

theorem acknow_sends {readings : Nat → Reading} (tcb : Tcb) (halloc : (readings 0).alloc = true) :
    segments (utcpOutput readings (setAcknow tcb)).log ≠ [] := by
  have hforced : segments (outputTurn (readings 0) (tcpOutflags tcb.state) true
      { setAcknow tcb with tfAcknow := false }).1.log ≠ [] := outputTurn_forced _ _ halloc
  simp only [utcpOutput, outputLoop]
  split
  · rw [segments_append]
    exact List.append_ne_nil_of_left_ne_nil hforced _
  · exact hforced

theorem setScaledWin_ne_zero {flags : U8} {freeSpace : U32} (hscale : tcb.rcvScale = 5)
    (hroom : mss.toNat ≤ freeSpace.toNat) (hsize : freeSpace.toNat ≤ recvBufSize.toNat) :
    setScaledWin tcb flags freeSpace ≠ 0 := by
  rw [mss_toNat] at hroom
  rw [recvBufSize_toNat] at hsize
  have hfive : tcb.rcvScale.toNat = 5 := congrArg BitVec.toNat hscale
  intro hzero
  have hzero' := congrArg BitVec.toNat hzero
  rw [setScaledWin] at hzero'
  split at hzero'
  · rw [BitVec.toNat_setWidth, BitVec.toNat_ushiftRight, hfive, Nat.shiftRight_eq_div_pow] at hzero'
    simp only [BitVec.ofNat_eq_ofNat, BitVec.toNat_ofNat] at hzero'
    omega
  · split at hzero'
    · exact absurd hzero' (by decide)
    · rename_i hsmall
      have hle : freeSpace.toNat ≤ 65535 := Nat.not_lt.mp hsmall
      rw [BitVec.toNat_setWidth] at hzero'
      simp only [BitVec.ofNat_eq_ofNat, BitVec.toNat_ofNat] at hzero'
      omega

/-- The block of a read after the copy. -/
def taken (tcb : Tcb) (len : Nat) : Tcb := takeBytes tcb (min len (bufUsed tcb).toNat)

theorem setAcknow_state (tcb : Tcb) : (setAcknow tcb).state = tcb.state := rfl

theorem setAcknow_rcvScale (tcb : Tcb) : (setAcknow tcb).rcvScale = tcb.rcvScale := rfl

theorem setAcknow_freeSpace (tcb : Tcb) :
    currentFreeSpace (setAcknow tcb) = currentFreeSpace tcb := rfl

theorem taken_rcvWnd (tcb : Tcb) (len : Nat) :
    (taken tcb len).rcvWnd = recvBufSize - bufUsed (taken tcb len) - tcb.oooBytes := by
  rw [taken, takeBytes]
  rfl

theorem taken_oooBytes (tcb : Tcb) (len : Nat) : (taken tcb len).oooBytes = tcb.oooBytes := by
  rw [taken, takeBytes]

theorem taken_state (tcb : Tcb) (len : Nat) : (taken tcb len).state = tcb.state := by
  rw [taken, takeBytes]

theorem taken_rcvScale (tcb : Tcb) (len : Nat) : (taken tcb len).rcvScale = tcb.rcvScale := by
  rw [taken, takeBytes]

/-- Clark's algorithm: a read tells the peer, or keeps quiet. -/
theorem utcpRead_log (env : Env) (tcb : Tcb) (len : Nat) :
    (sendsUpdate (taken tcb len).rcvWnd (bufUsed tcb) ∧
        segments (utcpRead env tcb len).1.log =
          segments (utcpOutput env.output (setAcknow (taken tcb len))).log) ∨
      (¬ sendsUpdate (taken tcb len).rcvWnd (bufUsed tcb) ∧
        segments (utcpRead env tcb len).1.log = []) := by
  simp only [utcpRead]
  rw [← taken]
  split
  · rename_i hupdate
    exact .inl ⟨hupdate, rfl⟩
  · rename_i hquiet
    exact .inr ⟨hquiet, rfl⟩

theorem utcpRead_bufUsed (env : Env) (tcb : Tcb) (len : Nat) :
    bufUsed (utcpRead env tcb len).1.tcb = bufUsed (taken tcb len) := by
  have hsame : ∀ t, SameReceive t (utcpOutput env.output (setAcknow t)).tcb := fun t =>
    outputTrace_sameReceive (acknowOutput_trace env.output t)
  simp only [utcpRead]
  rw [← taken]
  split
  · exact (hsame _).bufUsed
  · rfl

theorem sendsUpdate_emptied {len : Nat} (haccounts : Accounts tcb)
    (hempty : bufUsed (taken tcb len) = 0) :
    sendsUpdate (taken tcb len).rcvWnd (bufUsed tcb) ↔
      tcb.oooBytes.toNat ≤ recvBufSize.toNat - mss.toNat := by
  have hsize : recvBufSize.toNat = 1048576 := rfl
  have hmss : mss.toNat = 1400 := rfl
  have hthreshold : swsThreshold.toNat = 1400 := by decide
  have hroom := haccounts.room
  have hwnd : (taken tcb len).rcvWnd.toNat = recvBufSize.toNat - tcb.oooBytes.toNat := by
    have hzero : recvBufSize - 0 = recvBufSize := by decide
    rw [taken_rcvWnd, hempty, hzero, toNat_sub_of_ge (by omega)]
  have hge : (taken tcb len).rcvWnd ≥ swsThreshold ↔ 1400 ≤ (taken tcb len).rcvWnd.toNat := by
    rw [ge_iff_le, BitVec.le_def, hthreshold]
  rw [sendsUpdate, hge]
  constructor
  · rintro (hlarge | ⟨-, hfull⟩)
    · omega
    · rw [hfull] at hroom
      omega
  · intro hfew
    left
    omega

theorem taken_window {len : Nat} (haccounts : Accounts tcb) (hempty : bufUsed (taken tcb len) = 0) :
    (currentFreeSpace (taken tcb len)).toNat = recvBufSize.toNat - tcb.oooBytes.toNat := by
  have hroom := haccounts.room
  have hzero : recvBufSize - 0 = recvBufSize := by decide
  rw [currentFreeSpace, hempty, taken_oooBytes, hzero, toNat_sub_of_ge (by omega)]

/-- A segment that tells the peer of a window. -/
def opensWindow (seg : TcpSegment) : Bool :=
  hasFlag seg.hdr.thFlags thAck && seg.hdr.thWin != 0

theorem run_read {e e' : Endpoint} {len : Nat} (h : e.run (.read env len) = some (e', log)) :
    e.tcb.state = .established ∧ e'.tcb = (utcpRead env e.tcb len).1.tcb ∧
      log = (utcpRead env e.tcb len).1.log := by
  have hfinish : ∀ (e : Endpoint) (out : Out), e.finish out = (e', log) →
      e'.tcb = out.tcb ∧ log = out.log := by
    intro e out heq
    obtain ⟨rfl, rfl⟩ := Prod.mk.inj heq
    exact ⟨rfl, rfl⟩
  simp only [Endpoint.run] at h
  split at h
  · rename_i hread
    exact ⟨hread.1, hfinish _ _ (Option.some.inj h)⟩
  · cases h

theorem taken_opens {len : Nat} (haccounts : Accounts tcb) (hscale : tcb.rcvScale = 5)
    (hstate : tcb.state = .established) (halloc : EnvAllocates env)
    (hempty : bufUsed (taken tcb len) = 0)
    (hfew : tcb.oooBytes.toNat ≤ recvBufSize.toNat - mss.toNat) :
    (segments (utcpOutput env.output (setAcknow (taken tcb len))).log).any opensWindow := by
  have hwindows := outputTrace_windows (utcpOutput_trace env.output (setAcknow (taken tcb len)))
  obtain ⟨seg, hseg⟩ := List.exists_mem_of_ne_nil _
    (acknow_sends (taken tcb len) (halloc.output 0))
  obtain ⟨hflags, hwin⟩ := hwindows seg hseg
  have hstate' : (setAcknow (taken tcb len)).state = .established := by
    rw [setAcknow_state, taken_state, hstate]
  have hscale' : (setAcknow (taken tcb len)).rcvScale = 5 := by
    rw [setAcknow_rcvScale, taken_rcvScale, hscale]
  have hfree : (currentFreeSpace (setAcknow (taken tcb len))).toNat =
      recvBufSize.toNat - tcb.oooBytes.toNat := by
    rw [setAcknow_freeSpace, taken_window haccounts hempty]
  have hsize : recvBufSize.toNat = 1048576 := rfl
  have hmss : mss.toNat = 1400 := rfl
  rw [List.any_eq_true]
  refine ⟨seg, hseg, ?_⟩
  rw [opensWindow, hflags, hwin, hstate', Bool.and_eq_true, bne_iff_ne]
  refine ⟨rfl, setScaledWin_ne_zero hscale' ?_ ?_⟩
  · omega
  · omega

/-- A read that leaves the receive buffer empty sends an ACK with a window if and
only if a segment would fit beside the bytes that wait out of order; it sends
nothing otherwise. -/
theorem reopened_iff {e e' : Endpoint} {len : Nat} (h : ReachedBy endpoints ShortPayload e)
    (halloc : EnvAllocates env) (hrun : e.run (.read env len) = some (e', log))
    (hempty : e'.tcb.recvBufHead = e'.tcb.recvBufTail) :
    ((segments log).any opensWindow ↔ e.tcb.oooBytes.toNat ≤ recvBufSize.toNat - mss.toNat) ∧
      ((segments log).any opensWindow ∨ segments log = []) := by
  obtain ⟨haccounts, -⟩ := reached_accounts h
  obtain ⟨hstate, htcb, hread⟩ := run_read hrun
  have hused : bufUsed (taken e.tcb len) = 0 := by
    rw [← utcpRead_bufUsed env, ← htcb, bufUsed, hempty, BitVec.sub_self]
    rfl
  have hupdate := sendsUpdate_emptied haccounts hused
  have hopens := @taken_opens env _ len haccounts (reached_rcvScale h) hstate halloc hused
  rcases utcpRead_log env e.tcb len with ⟨hsends, hlog⟩ | ⟨hquiet, hlog⟩
  · have hfew := hupdate.mp hsends
    rw [hread, hlog]
    exact ⟨iff_of_true (hopens hfew) hfew, .inl (hopens hfew)⟩
  · rw [hread, hlog]
    exact ⟨iff_of_false (by simp) fun hfew => hquiet (hupdate.mpr hfew), .inr rfl⟩

/-- Three bytes to read, and one that waits behind a gap. -/
theorem reopened_iff_gap :
    ∃ e e' log, ReachedBy endpoints ShortPayload e ∧ e.tcb.oooBytes = 1 ∧
      e.run (.read (.still 0) 5) = some (e', log) ∧ (segments log).any opensWindow := by
  let start : Endpoint := .start (utcpListen (utcpBind utcpSocket 0 0))
  have hruns : (runAll (guarded ShortPayload Endpoint.next) start
      [arrives (peerSegment 7 thSyn 9 []), arrives (peerSegment 8 thAck 9 [1, 2, 3]),
        arrives (peerSegment 15 thAck 9 [4])]).bind (fun e =>
          (e.run (.read (.still 0) 5)).map fun result =>
            (e.tcb.oooBytes, result.1.tcb.recvBufHead == result.1.tcb.recvBufTail)) =
        some (1, true) := by
    decide +kernel
  obtain ⟨e, hrun, hruns⟩ := Option.bind_eq_some_iff.mp hruns
  obtain ⟨⟨e', log⟩, hread, hends⟩ := Option.map_eq_some_iff.mp hruns
  simp only [Prod.mk.injEq, beq_iff_eq] at hends
  obtain ⟨hbytes, hempty⟩ := hends
  have hreach : ReachedBy endpoints ShortPayload e :=
    .runGuarded (fun _ _ h => h) (fun _ _ _ => endpoints_next) _ (.init ⟨0, 0, .inr rfl⟩) hrun
  refine ⟨e, e', log, hreach, hbytes, hread, ?_⟩
  apply (reopened_iff hreach (envAllocates_still 0) hread hempty).1.mpr
  rw [hbytes]
  decide

/-- The window a segment of ours offers, as its receiver reads it. -/
def offered (tcb : Tcb) (seg : TcpSegment) : Nat :=
  if tcb.scaleEnabled && !hasFlag seg.hdr.thFlags thSyn then
    seg.hdr.thWin.toNat * 2 ^ tcb.rcvScale.toNat
  else seg.hdr.thWin.toNat

/-- A segment that reaches a connection ends within a window it was offered. -/
def InWindow (e : Endpoint) : Section → Prop
  | .input _ seg _ =>
      Receiving e.tcb → payload seg = [] ∨
        ∃ offer ∈ segments e.history,
          (seg.hdr.thSeq + BitVec.ofNat 32 (payload seg).length - offer.hdr.thAck).toInt ≤
            offered e.tcb offer
  | _ => True

/-- The segments come from a sender of one stream that stays within the windows,
and every allocation succeeds. -/
structure HonestSender (stream : List U8) (e : Endpoint) (s : Section) : Prop where
  short : ShortPayload e s
  alloc : Allocates e s
  slice : SliceOf stream e s
  window : InWindow e s

/-- The last segment emitted closed the window. -/
def Closed (e : Endpoint) : Prop :=
  ∃ seg, (segments e.history).getLast? = some seg ∧ seg.hdr.thWin = 0

def zeros : List U8 := List.replicate recvBufSize.toNat 0

theorem zeros_slice {pos n : Nat} (h : pos + n ≤ recvBufSize.toNat) :
    List.replicate n 0 <+: zeros.drop pos := by
  rw [zeros, List.drop_replicate]
  exact List.prefix_replicate_iff.mpr ⟨by rw [List.length_replicate]; omega, by simp⟩

/-- A segment with `n` of the zeros from `pos` on. -/
def zerosSegment (pos n : Nat) : TcpSegment :=
  peerSegment (8 + BitVec.ofNat 32 pos) thAck 0 (List.replicate n 0)

theorem zerosSegment_payload (pos n : Nat) :
    payload (zerosSegment pos n) = List.replicate n 0 := peerSegment_payload ..

theorem honest_zeros {e : Endpoint} {pos n : Nat} (hn : n ≤ 1480) (hirs : e.tcb.irs = 7)
    (hend : pos + n ≤ recvBufSize.toNat) (hedge : edgeOf e ≤ recvBufSize.toNat)
    (hwindow : ∃ offer ∈ segments e.history,
      (8 + BitVec.ofNat 32 pos + BitVec.ofNat 32 n - offer.hdr.thAck).toInt ≤ offered e.tcb offer) :
    HonestSender zeros e (arrives (zerosSegment pos n)) where
  short := by
    show (payload (zerosSegment pos n)).length ≤ 1480
    rw [zerosSegment_payload, List.length_replicate]
    exact hn
  alloc := allocates_arrives ..
  slice := by
    intro _
    have hsize : recvBufSize.toNat = 1048576 := rfl
    have hseq : (zerosSegment pos n).hdr.thSeq = e.tcb.irs + 1 + BitVec.ofNat 32 pos := by
      rw [hirs]
      rfl
    rw [zerosSegment_payload, List.length_replicate]
    exact .inr ⟨pos, hseq, zeros_slice hend, by omega, by omega, by omega⟩
  window := by
    intro _
    rw [zerosSegment_payload, List.length_replicate]
    exact .inr hwindow

theorem insertOooSegment_last {seq : U32} {data : List U8}
    (hqueue : ∀ entry ∈ tcb.oooHead, seqLeq (entryEnd entry) seq)
    (hroom : ¬ BitVec.ofNat 32 data.length > recvBufSize - bufUsed tcb - tcb.oooBytes) :
    insertOooSegment (.still 0) tcb seq data =
      ⟨{ tcb with
          oooHead := tcb.oooHead ++ [⟨seq, BitVec.ofNat 32 data.length, data⟩]
          oooBytes := tcb.oooBytes + BitVec.ofNat 32 data.length },
        [.freeSpace (bufUsed tcb) tcb.oooBytes]⟩ := by
  have htrim := trimStart_takeWhile tcb.oooHead ⟨seq, BitVec.ofNat 32 data.length, data⟩
  have hall : tcb.oooHead.takeWhile (fun entry => seqLeq (entryEnd entry) seq) = tcb.oooHead :=
    List.takeWhile_eq_self_iff.mpr hqueue
  have hnone : tcb.oooHead.dropWhile (fun entry => seqLeq (entryEnd entry) seq) = [] :=
    List.dropWhile_eq_nil_iff.mpr hqueue
  simp only [insertOooSegment, List.span_eq_takeWhile_dropWhile]
  rw [htrim, if_neg hroom, hall, hnone]
  rfl

theorem handleAck_shut {seq : U32} {data : List U8} (huna : tcb.sndUna = 1) (hdata : data ≠ []) :
    handleAck env tcb (peerSegment seq thAck 0 data) = some ⟨tcb, []⟩ := by
  have hsame : (peerSegment seq thAck 0 data).hdr.thAck = tcb.sndUna := huna.symm
  have hack : validAck tcb (peerSegment seq thAck 0 data).hdr.thAck = false :=
    validAck_self hsame
  have hshut : ¬ getScaledWin tcb (peerSegment seq thAck 0 data).hdr > tcb.sndWnd := by
    have hzero : getScaledWin tcb (peerSegment seq thAck 0 data).hdr = 0 := by
      rw [getScaledWin]
      split
      · exact BitVec.zero_shiftLeft _
      · rfl
    rw [hzero]
    exact Nat.not_lt_zero _
  have hpayload := peerSegment_payload seq thAck 0 data
  rw [handleAck, if_neg (by rw [hack]; decide), if_pos hsame]
  simp only [handleSameAck]
  rw [if_neg hshut, hpayload, if_neg fun hbare => hdata hbare.1]

/-- A connection with 704 bytes for the reader, and `k` segments of 1399 bytes
behind a gap of ten. -/
structure Early (k : Nat) (e : Endpoint) : Prop where
  reached : ReachedBy endpoints (HonestSender zeros) e
  state : e.tcb.state = .established
  irs : e.tcb.irs = 7
  rcvNxt : e.tcb.rcvNxt = 712
  sndUna : e.tcb.sndUna = 1
  scaleEnabled : e.tcb.scaleEnabled = true
  used : bufUsed e.tcb = 704
  oooBytes : e.tcb.oooBytes = BitVec.ofNat 32 (1399 * k)
  queue : ∀ entry ∈ e.tcb.oooHead, (entryEnd entry).toNat ≤ 722 + 1399 * k
  delivered : e.delivered = []
  offer : ∃ offer ∈ segments e.history,
    offer.hdr.thAck = 712 ∧ offer.hdr.thFlags = thAck ∧ offer.hdr.thWin = 32746

theorem zeros_ne_nil : List.replicate 1399 (0 : U8) ≠ [] := by
  apply List.ne_nil_of_length_pos
  rw [List.length_replicate]
  decide

/-- The next segment behind the gap. -/
def earlySegment (k : Nat) : TcpSegment := zerosSegment (714 + 1399 * k) 1399

theorem earlySegment_seq {k : Nat} (hk : k < 749) :
    (earlySegment k).hdr.thSeq.toNat = 722 + 1399 * k := by
  show (8 + BitVec.ofNat 32 (714 + 1399 * k) : U32).toNat = _
  rw [BitVec.toNat_add, BitVec.toNat_ofNat]
  simp only [BitVec.ofNat_eq_ofNat, BitVec.toNat_ofNat]
  omega

theorem Early.honest {k : Nat} {e : Endpoint} (h : Early k e) (hk : k < 749) :
    HonestSender zeros e (arrives (earlySegment k)) := by
  have hsize : recvBufSize.toNat = 1048576 := rfl
  have hedge : edgeOf e = 704 := by
    rw [edgeOf, h.delivered, h.used]
    rfl
  refine honest_zeros (by decide) h.irs (by omega) (by omega) ?_
  obtain ⟨offer, hoffer, hack, hflags, hwin⟩ := h.offer
  refine ⟨offer, hoffer, ?_⟩
  have hscale := reached_rcvScale h.reached
  have hoffered : offered e.tcb offer = 1047872 := by
    rw [offered, h.scaleEnabled, hflags, hwin, hscale]
    decide
  have hseq := earlySegment_seq hk
  have hdistance : (8 + BitVec.ofNat 32 (714 + 1399 * k) + BitVec.ofNat 32 1399 - 712 : U32).toNat =
      10 + 1399 * k + 1399 := by
    have hseq' : (8 + BitVec.ofNat 32 (714 + 1399 * k) : U32).toNat = 722 + 1399 * k := hseq
    bv_omega
  rw [hack, hoffered, BitVec.toInt_eq_toNat_cond, hdistance]
  split
  · omega
  · omega

/-- The block after the segment was queued. -/
def enqueued (tcb : Tcb) (k : Nat) : Tcb :=
  { tcb with
    oooHead := tcb.oooHead ++
      [⟨(earlySegment k).hdr.thSeq, BitVec.ofNat 32 1399, List.replicate 1399 0⟩]
    oooBytes := tcb.oooBytes + BitVec.ofNat 32 1399 }

theorem Early.oooBytes_toNat {k : Nat} {e : Endpoint} (h : Early k e) (hk : k ≤ 749) :
    e.tcb.oooBytes.toNat = 1399 * k := by
  rw [h.oooBytes, BitVec.toNat_ofNat, Nat.mod_eq_of_lt (by omega)]

theorem Early.insert {k : Nat} {e : Endpoint} (h : Early k e) (hk : k < 749) :
    insertOooSegment (.still 0) e.tcb (earlySegment k).hdr.thSeq (List.replicate 1399 0) =
      ⟨enqueued e.tcb k, [.freeSpace (bufUsed e.tcb) e.tcb.oooBytes]⟩ := by
  have hlen : (List.replicate 1399 (0 : U8)).length = 1399 := List.length_replicate
  have hbytes := h.oooBytes_toNat (Nat.le_of_lt hk)
  have hfree : (recvBufSize - bufUsed e.tcb - e.tcb.oooBytes).toNat = 1047872 - 1399 * k := by
    have hrest : recvBufSize - bufUsed e.tcb = 1047872 := by
      rw [h.used]
      decide
    have htoNat : (1047872 : U32).toNat = 1047872 := rfl
    rw [hrest, toNat_sub_of_ge (by omega), hbytes, htoNat]
  have hinsert := @insertOooSegment_last e.tcb (earlySegment k).hdr.thSeq (List.replicate 1399 0) ?_ ?_
  · rw [hlen] at hinsert
    exact hinsert
  · intro entry hmem
    have hend := h.queue entry hmem
    have hseq := earlySegment_seq hk
    rw [seqLeq, decide_eq_true_eq, ← Int.not_lt, sub_pos_iff (by omega) (by omega)]
    omega
  · rw [hlen, gt_iff_lt, BitVec.lt_def, hfree, BitVec.toNat_ofNat]
    omega

theorem Early.placed {k : Nat} {e : Endpoint} (h : Early k e) (hk : k < 749) :
    handleData (.still 0) e.tcb (earlySegment k) =
      ⟨(utcpOutput (Env.still 0).output (setAcknow (enqueued e.tcb k))).tcb,
        .freeSpace (bufUsed e.tcb) e.tcb.oooBytes ::
          (utcpOutput (Env.still 0).output (setAcknow (enqueued e.tcb k))).log⟩ := by
  have hseq := earlySegment_seq hk
  have hrcv : e.tcb.rcvNxt.toNat = 712 := congrArg BitVec.toNat h.rcvNxt
  have hdata := zeros_ne_nil
  have hpayload : payload (earlySegment k) = List.replicate 1399 0 := zerosSegment_payload ..
  have hlate : seqLt (earlySegment k).hdr.thSeq e.tcb.rcvNxt = false := by
    rw [seqLt, decide_eq_false_iff_not, sub_neg_iff (by omega) (by omega)]
    omega
  have hother : (earlySegment k).hdr.thSeq ≠ e.tcb.rcvNxt := by
    intro heq
    rw [heq] at hseq
    omega
  simp only [handleData]
  rw [hpayload, hlate, if_neg hdata, if_neg Bool.false_ne_true, placeData_other _ _ hother,
    h.insert hk]
  rfl

theorem Early.run {k : Nat} {e : Endpoint} (h : Early k e) :
    e.run (arrives (earlySegment k)) =
      some (e.finish (handleData (.still 0) e.tcb (earlySegment k))) := by
  have hdata := zeros_ne_nil
  have hoptions : processWindowOption (.still 0) (earlySegment k) e.tcb = e.tcb := by
    rw [processWindowOption, earlySegment, zerosSegment, peerSegment_offset,
      if_neg (Nat.lt_irrefl _)]
  have hack : handleAck (.still 0) e.tcb (earlySegment k) = some ⟨e.tcb, []⟩ :=
    handleAck_shut h.sndUna hdata
  simp only [arrives, Endpoint.run, utcpInput]
  rw [h.state]
  simp only [handleReceivedData]
  rw [hoptions, hack]
  rfl

theorem Early.next {k : Nat} {e : Endpoint} (h : Early k e) (hk : k < 749) :
    ∃ e' log, e.run (arrives (earlySegment k)) = some (e', log) ∧ Early (k + 1) e' ∧
      segments log ≠ [] ∧
      ∀ seg ∈ segments log,
        seg.hdr.thWin = setScaledWin e'.tcb thAck (1047872 - e'.tcb.oooBytes) := by
  have hrun := h.run
  have hseq := earlySegment_seq hk
  have hsends := @acknow_sends (Env.still 0).output (enqueued e.tcb k) rfl
  have hwindows := outputTrace_windows
    (utcpOutput_trace (Env.still 0).output (setAcknow (enqueued e.tcb k)))
  obtain ⟨_, _, _, _, _, _, _, heq⟩ :=
    utcpOutput_eq (Env.still 0).output (setAcknow (enqueued e.tcb k))
  rw [h.placed hk] at hrun
  generalize utcpOutput (Env.still 0).output (setAcknow (enqueued e.tcb k)) = out
    at hrun hsends hwindows heq
  have hbytes : e.tcb.oooBytes + BitVec.ofNat 32 1399 = BitVec.ofNat 32 (1399 * (k + 1)) := by
    rw [h.oooBytes, ← BitVec.ofNat_add]
    rfl
  have hused : bufUsed out.tcb = bufUsed e.tcb := by
    rw [heq]
    rfl
  refine ⟨_, _, hrun, ⟨.step h.reached (h.honest hk) ⟨_, hrun⟩, ?_, ?_, ?_, ?_, ?_, ?_, ?_, ?_,
    h.delivered, ?_⟩, hsends, ?_⟩
  · show out.tcb.state = _
    rw [heq]
    exact h.state
  · show out.tcb.irs = _
    rw [heq]
    exact h.irs
  · show out.tcb.rcvNxt = _
    rw [heq]
    exact h.rcvNxt
  · show out.tcb.sndUna = _
    rw [heq]
    exact h.sndUna
  · show out.tcb.scaleEnabled = _
    rw [heq]
    exact h.scaleEnabled
  · exact hused.trans h.used
  · show out.tcb.oooBytes = _
    rw [heq]
    exact hbytes
  · show ∀ entry ∈ out.tcb.oooHead, _
    rw [heq]
    intro entry hmem
    rcases List.mem_append.mp hmem with hold | hnew
    · have hend := h.queue entry hold
      omega
    · obtain rfl := List.mem_singleton.mp hnew
      show ((earlySegment k).hdr.thSeq + BitVec.ofNat 32 1399).toNat ≤ _
      rw [BitVec.toNat_add, hseq, BitVec.toNat_ofNat]
      omega
  · obtain ⟨offer, hoffer, hfields⟩ := h.offer
    refine ⟨offer, ?_, hfields⟩
    show offer ∈ segments (e.history ++ _)
    rw [segments_append]
    exact List.mem_append_left _ hoffer
  · intro seg hseg
    obtain ⟨-, hwin⟩ := hwindows seg hseg
    have hstate : (setAcknow (enqueued e.tcb k)).state = .established := h.state
    rw [hwin, hstate]
    have hfree : currentFreeSpace (setAcknow (enqueued e.tcb k)) =
        1047872 - (e.tcb.oooBytes + BitVec.ofNat 32 1399) := by
      have hrest : recvBufSize - bufUsed e.tcb = 1047872 := by
        rw [h.used]
        decide
      rw [← hrest]
      rfl
    rw [hfree]
    show _ = setScaledWin out.tcb thAck (1047872 - out.tcb.oooBytes)
    rw [heq]
    rfl

theorem early_run (k : Nat) (hk : k ≤ 748) (h : ∃ e, Early 0 e) : ∃ e, Early k e := by
  induction k with
  | zero => exact h
  | succ k ih =>
      obtain ⟨e, he⟩ := ih (by omega)
      obtain ⟨e', _, _, he', _⟩ := he.next (by omega)
      exact ⟨e', he'⟩

/-- What an honest sender needs for a segment of zeros, computed. -/
def offeredFor (e : Endpoint) (pos n : Nat) : Bool :=
  e.tcb.irs == 7 && decide (edgeOf e ≤ recvBufSize.toNat) &&
    (segments e.history).any fun offer =>
      decide ((8 + BitVec.ofNat 32 pos + BitVec.ofNat 32 n - offer.hdr.thAck).toInt ≤
        offered e.tcb offer)

theorem honest_of_offeredFor {e : Endpoint} {pos n : Nat} (hn : n ≤ 1480)
    (hend : pos + n ≤ recvBufSize.toNat) (h : offeredFor e pos n = true) :
    HonestSender zeros e (arrives (zerosSegment pos n)) := by
  rw [offeredFor, Bool.and_eq_true, Bool.and_eq_true, beq_iff_eq, decide_eq_true_eq,
    List.any_eq_true] at h
  obtain ⟨⟨hirs, hedge⟩, offer, hoffer, hwindow⟩ := h
  rw [decide_eq_true_eq] at hwindow
  exact honest_zeros hn hirs hend hedge ⟨offer, hoffer, hwindow⟩

/-- A SYN that asks for a window scale. -/
def scaledSyn : TcpSegment := ⟨⟨0, 0, 7, 0, 0x60, thSyn, 1000, 0, 0⟩, [3, 3, 5, 0]⟩

/-- The peer opens the connection and sends two segments of 352 bytes: the second
is acknowledged at once, with a window as large as the rest of the buffer. -/
theorem early_start : ∃ e, Early 0 e := by
  let start : Endpoint := .start (utcpListen (utcpBind utcpSocket 0 0))
  have hruns : (start.run (arrives scaledSyn)).bind (fun first =>
      (first.1.run (arrives (zerosSegment 0 352))).bind fun second =>
        (second.1.run (arrives (zerosSegment 352 352))).map fun third =>
          (third.1.tcb.state, [third.1.tcb.oooHead.length, third.1.delivered.length],
            [third.1.tcb.irs, third.1.tcb.rcvNxt, third.1.tcb.sndUna, bufUsed third.1.tcb,
              third.1.tcb.oooBytes],
            [offeredFor first.1 0 352, offeredFor second.1 352 352, third.1.tcb.scaleEnabled,
              (segments third.1.history).any fun offer =>
                offer.hdr.thAck == 712 && offer.hdr.thFlags == thAck && offer.hdr.thWin == 32746])) =
      some (.established, [0, 0], [7, 712, 1, 704, 0], [true, true, true, true]) := by
    decide +kernel
  obtain ⟨⟨first, log⟩, hfirst, hruns⟩ := Option.bind_eq_some_iff.mp hruns
  obtain ⟨⟨second, log'⟩, hsecond, hruns⟩ := Option.bind_eq_some_iff.mp hruns
  obtain ⟨⟨third, log''⟩, hthird, hends⟩ := Option.map_eq_some_iff.mp hruns
  simp only [Prod.mk.injEq, List.cons.injEq, and_true, List.any_eq_true, Bool.and_eq_true,
    beq_iff_eq] at hends
  obtain ⟨hstate, ⟨hqueue, hdelivered⟩, ⟨hirs, hrcv, huna, hused, hbytes⟩,
    hready, hready', hscale, offer, hoffer, ⟨hack, hflags⟩, hwin⟩ := hends
  have hlisten : ¬ Receiving start.tcb := by
    rintro (h | h) <;> cases h
  have hsyn : HonestSender zeros start (arrives scaledSyn) :=
    ⟨Nat.zero_le _, allocates_arrives _ _, fun h => absurd h hlisten, fun h => absurd h hlisten⟩
  have hreach : ReachedBy endpoints (HonestSender zeros) first :=
    .step (.init ⟨0, 0, .inr rfl⟩) hsyn ⟨log, hfirst⟩
  have hreach' : ReachedBy endpoints (HonestSender zeros) second :=
    .step hreach (honest_of_offeredFor (by decide) (by decide) hready) ⟨log', hsecond⟩
  have hreach'' : ReachedBy endpoints (HonestSender zeros) third :=
    .step hreach' (honest_of_offeredFor (by decide) (by decide) hready') ⟨log'', hthird⟩
  have hnone : third.tcb.oooHead = [] := List.eq_nil_of_length_eq_zero hqueue
  refine ⟨third, hreach'', hstate, hirs, hrcv, huna, hscale, hused, hbytes, ?_,
    List.eq_nil_of_length_eq_zero hdelivered, offer, hoffer, hack, hflags, hwin⟩
  rw [hnone]
  rintro _ ⟨⟩

/-- The last segment behind the gap closes the window. -/
theorem closed_start : ∃ e, Early 749 e ∧ Closed e := by
  obtain ⟨e, he⟩ := early_run 748 (Nat.le_refl _) early_start
  obtain ⟨e', log, hrun, he', hsends, hwindows⟩ := he.next (by decide)
  refine ⟨e', he', ?_⟩
  have hhistory : e'.history = e.history ++ log := (run_cases hrun).choose_spec.2.history_eq
  refine ⟨(segments log).getLast hsends, ?_, ?_⟩
  · rw [hhistory, segments_append, List.getLast?_append, List.getLast?_eq_some_getLast hsends]
    rfl
  · rw [hwindows _ (List.getLast_mem hsends), setScaledWin, he'.scaleEnabled, he'.oooBytes,
      reached_rcvScale he'.reached]
    decide

theorem taken_all {len : Nat} (h : (bufUsed tcb).toNat ≤ len) : bufUsed (taken tcb len) = 0 := by
  have hused := bufUsed_takeBytes (Nat.min_le_right len (bufUsed tcb).toNat)
  apply BitVec.eq_of_toNat_eq
  rw [taken, hused, Nat.min_eq_right h, Nat.sub_self]
  rfl

/-- A reader that empties the buffer does not open the window again. -/
theorem not_reopened :
    ¬ ∀ stream e, ReachedBy endpoints (HonestSender stream) e → Closed e →
      ∀ env len e' log, EnvAllocates env → e.run (.read env len) = some (e', log) →
        e'.tcb.recvBufHead = e'.tcb.recvBufTail → (segments log).any opensWindow := by
  intro hreopens
  obtain ⟨e, he, hclosed⟩ := closed_start
  have hne : e.tcb.recvBufHead ≠ e.tcb.recvBufTail := by
    intro heq
    have hused := he.used
    rw [bufUsed, heq, BitVec.sub_self] at hused
    exact absurd hused (by decide)
  obtain ⟨⟨e', log⟩, hrun⟩ : ∃ result, e.run (.read (.still 0) 704) = some result := by
    rw [Endpoint.run, if_pos ⟨he.state, hne⟩]
    exact ⟨_, rfl⟩
  obtain ⟨-, htcb, hlog⟩ := run_read hrun
  have hall : bufUsed (taken e.tcb 704) = 0 := by
    apply taken_all
    rw [he.used]
    decide
  have hempty : e'.tcb.recvBufHead = e'.tcb.recvBufTail := by
    rw [← utcpRead_bufUsed (.still 0), ← htcb] at hall
    exact (eq_of_toNat_sub_eq_zero (congrArg BitVec.toNat hall)).symm
  have hopens := hreopens zeros e he.reached hclosed (.still 0) 704 e' log (envAllocates_still 0)
    hrun hempty
  obtain ⟨haccounts, -⟩ := reached_accounts (he.reached.mono fun _ _ h => h.short)
  rcases utcpRead_log (.still 0) e.tcb 704 with ⟨hsends, -⟩ | ⟨-, hquiet⟩
  · have hfew := (sendsUpdate_emptied haccounts hall).mp hsends
    rw [he.oooBytes_toNat (Nat.le_refl _)] at hfew
    exact absurd hfew (by decide)
  · rw [hlog, hquiet] at hopens
    exact absurd hopens (by decide)

end Utcp.Reopening
