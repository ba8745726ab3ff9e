import Utcp.Opening
import Utcp.SectionCases

/-!
A segment that does not complete the handshake of a block in `TCP_SYN_RECV`
falls through into the receive path of `TCP_ESTABLISHED`: what it changes there.
-/

namespace Utcp.Handshake

open Utcp.Tcp
open Utcp.Utils
open Utcp.Output
open Utcp.CongestionControl
open Utcp.Input
open Utcp.Api
open Utcp.Steps
open Utcp.Sections
open Utcp.Opening
open Utcp.SectionCases

variable {env : Env} {tcb tcb' : Tcb} {seg : TcpSegment} {peer : Peer}

/-- What a segment that does not belong to the handshake should leave alone. -/
structure Undisturbed (tcb tcb' : Tcb) : Prop where
  state : tcb'.state = tcb.state
  sndUna : tcb'.sndUna = tcb.sndUna
  sndNxt : tcb'.sndNxt = tcb.sndNxt
  sndMax : tcb'.sndMax = tcb.sndMax
  sendBufHead : tcb'.sendBufHead = tcb.sendBufHead
  rcvNxt : tcb'.rcvNxt = tcb.rcvNxt
  recvBuf : tcb'.recvBuf = tcb.recvBuf
  recvBufHead : tcb'.recvBufHead = tcb.recvBufHead
  recvBufTail : tcb'.recvBufTail = tcb.recvBufTail
  oooHead : tcb'.oooHead = tcb.oooHead
  oooBytes : tcb'.oooBytes = tcb.oooBytes
  cwnd : tcb'.cwnd = tcb.cwnd
  ssthresh : tcb'.ssthresh = tcb.ssthresh
  tDupacks : tcb'.tDupacks = tcb.tDupacks
  recover : tcb'.recover = tcb.recover
  caState : tcb'.caState = tcb.caState
  ccOps : tcb'.ccOps = tcb.ccOps

theorem Undisturbed.refl (tcb : Tcb) : Undisturbed tcb tcb :=
  ⟨rfl, rfl, rfl, rfl, rfl, rfl, rfl, rfl, rfl, rfl, rfl, rfl, rfl, rfl, rfl, rfl, rfl⟩

theorem Undisturbed.symm {a b : Tcb} (h : Undisturbed a b) : Undisturbed b a :=
  ⟨h.state.symm, h.sndUna.symm, h.sndNxt.symm, h.sndMax.symm, h.sendBufHead.symm, h.rcvNxt.symm,
    h.recvBuf.symm, h.recvBufHead.symm, h.recvBufTail.symm, h.oooHead.symm, h.oooBytes.symm,
    h.cwnd.symm, h.ssthresh.symm, h.tDupacks.symm, h.recover.symm, h.caState.symm, h.ccOps.symm⟩

theorem Undisturbed.trans {a b c : Tcb} (h : Undisturbed a b) (k : Undisturbed b c) :
    Undisturbed a c :=
  ⟨k.state.trans h.state, k.sndUna.trans h.sndUna, k.sndNxt.trans h.sndNxt,
    k.sndMax.trans h.sndMax, k.sendBufHead.trans h.sendBufHead, k.rcvNxt.trans h.rcvNxt,
    k.recvBuf.trans h.recvBuf, k.recvBufHead.trans h.recvBufHead,
    k.recvBufTail.trans h.recvBufTail, k.oooHead.trans h.oooHead, k.oooBytes.trans h.oooBytes,
    k.cwnd.trans h.cwnd, k.ssthresh.trans h.ssthresh, k.tDupacks.trans h.tDupacks,
    k.recover.trans h.recover, k.caState.trans h.caState, k.ccOps.trans h.ccOps⟩

theorem Undisturbed.congr_left {a b c : Tcb} (h : Undisturbed a b) :
    Undisturbed a c ↔ Undisturbed b c :=
  ⟨h.symm.trans, h.trans⟩

/-- `utcp_output` sends no SYN-ACK: it has sent one, or cannot allocate it. -/
def NoSynAck (env : Env) (tcb : Tcb) : Prop :=
  tcb.sndNxt ≠ tcb.sndMax ∨ (env.output 0).alloc = false

theorem cancelDelack_undisturbed (tcb : Tcb) :
    Undisturbed tcb (cancelDelack { tcb with tfAcknow := false }) := by
  rw [cancelDelack]
  split <;>
    exact ⟨rfl, rfl, rfl, rfl, rfl, rfl, rfl, rfl, rfl, rfl, rfl, rfl, rfl, rfl, rfl, rfl, rfl⟩

theorem log_of_noalloc {readings : Nat → Reading} (hstate : tcb.state ≠ .established)
    (halloc : (readings 0).alloc = false) : (utcpOutput readings tcb).log = [] := by
  rw [utcpOutput_opening readings hstate]
  simp only [outputTurn, utcpSendSegment, halloc]
  split <;> rfl

theorem sendingNewSynFin_synRecv (hstate : tcb.state = .synRecv) :
    sendingNewSynFin (tcpOutflags tcb.state) tcb = (tcb.sndNxt == tcb.sndMax) := by
  rw [sendingNewSynFin, hstate]
  rfl

theorem utcpOutput_undisturbed_iff (hstate : tcb.state = .synRecv) :
    Undisturbed tcb (utcpOutput env.output tcb).tcb ↔ NoSynAck env tcb := by
  have hopening : tcb.state ≠ .established := by
    rw [hstate]
    decide
  have hends := utcpOutput_ends env.output hopening
  have hlog := fun halloc => @log_of_noalloc tcb env.output hopening halloc
  have hsynFin := sendingNewSynFin_synRecv hstate
  generalize utcpOutput env.output tcb = out at hends hlog ⊢
  rw [NoSynAck]
  cases hends with
  | quiet hsyn =>
      rw [hsynFin, beq_eq_false_iff_ne] at hsyn
      refine iff_of_true ?_ (.inl hsyn)
      exact ⟨rfl, rfl, rfl, rfl, rfl, rfl, rfl, rfl, rfl, rfl, rfl, rfl, rfl, rfl, rfl, rfl, rfl⟩
  | failed halloc => exact iff_of_true (cancelDelack_undisturbed tcb) (.inr halloc)
  | bare hsyn =>
      rw [hsynFin, beq_eq_false_iff_ne] at hsyn
      exact iff_of_true (cancelDelack_undisturbed tcb) (.inl hsyn)
  | syn hsyn log hsegments =>
      rw [hsynFin, beq_iff_eq] at hsyn
      refine iff_of_false ?_ ?_
      · intro h
        have hnxt := h.sndNxt
        obtain ⟨_, _, _, heq⟩ :=
          advanceSndNxt_eq (cancelDelack { tcb with tfAcknow := false }) 0 true
        rw [heq] at hnxt
        simp only [(cancelDelack_undisturbed tcb).sndNxt] at hnxt
        simp at hnxt
      · rintro (hne | halloc)
        · exact hne hsyn
        · have hnil : log = [] := hlog halloc
          rw [hnil] at hsegments
          cases hsegments

theorem setAcknow_undisturbed_iff (hstate : tcb.state = .synRecv) :
    Undisturbed tcb (utcpOutput env.output (setAcknow tcb)).tcb ↔ NoSynAck env tcb := by
  have hflag : Undisturbed tcb (setAcknow tcb) :=
    ⟨rfl, rfl, rfl, rfl, rfl, rfl, rfl, rfl, rfl, rfl, rfl, rfl, rfl, rfl, rfl, rfl, rfl⟩
  have houtput : Undisturbed (setAcknow tcb) _ ↔ NoSynAck env (setAcknow tcb) :=
    utcpOutput_undisturbed_iff hstate
  exact hflag.congr_left.trans houtput

/-- The queue holds a segment already: its entry stands where the segment goes,
and nothing behind reaches below its end. -/
def AlreadyQueued (tcb : Tcb) (seqNum : U32) (data : List U8) : Prop :=
  let (before, cur) := tcb.oooHead.span fun entry => seqLeq (entryEnd entry) seqNum
  match trimStart before.getLast? ⟨seqNum, BitVec.ofNat 32 data.length, data⟩ with
  | none => True
  | some entry =>
      ∃ rest, cur = entry :: rest ∧ seqLt entry.seq (entryEnd entry) ∧
        ∀ next ∈ rest.head?, seqLt next.seq (entryEnd entry) = false

/-- An out-of-order segment leaves the queue alone: there is no room for it, no
memory, or it is there. -/
def NotQueued (env : Env) (tcb : Tcb) (seqNum : U32) (data : List U8) : Prop :=
  BitVec.ofNat 32 data.length > recvBufSize - bufUsed tcb - tcb.oooBytes ∨
    env.queueAlloc = false ∨ AlreadyQueued tcb seqNum data

theorem absorbEntries_length (endSeq : U32) (queue : List TcpqEntry) (oooBytes : U32) :
    (absorbEntries endSeq queue oooBytes).1.length ≤ queue.length := by
  induction queue generalizing oooBytes with
  | nil => exact Nat.le_refl _
  | cons cur rest ih =>
      rw [absorbEntries]
      split
      · split
        · exact Nat.le_succ_of_le (ih _)
        · exact Nat.le_refl _
      · exact Nat.le_refl _

theorem seqLt_irrefl (a : U32) : seqLt a a = false := by
  rw [seqLt, BitVec.sub_self]
  rfl

theorem absorbEntries_same_iff (endSeq : U32) (queue : List TcpqEntry) (oooBytes : U32) :
    (absorbEntries endSeq queue oooBytes).1 = queue ↔
      ∀ next ∈ queue.head?, seqLt next.seq endSeq = false := by
  rcases queue with - | ⟨cur, rest⟩
  · simp [absorbEntries]
  · rw [absorbEntries]
    rcases hlt : seqLt cur.seq endSeq with - | -
    · simp [hlt]
    · refine iff_of_false ?_ (by simp [hlt])
      rw [if_pos rfl]
      split
      · intro heq
        have hlen := absorbEntries_length endSeq rest (oooBytes - cur.len)
        rw [heq, List.length_cons] at hlen
        omega
      · intro heq
        have hseq : cur.seq + (endSeq - cur.seq) = cur.seq :=
          congrArg TcpqEntry.seq (List.cons_eq_cons.mp heq).1
        rw [BitVec.add_comm, BitVec.sub_add_cancel] at hseq
        rw [hseq, seqLt_irrefl] at hlt
        cases hlt

theorem absorbEntries_stops {endSeq : U32} {queue : List TcpqEntry}
    (h : ∀ next ∈ queue.head?, seqLt next.seq endSeq = false) (oooBytes : U32) :
    absorbEntries endSeq queue oooBytes = (queue, oooBytes, []) := by
  rcases queue with - | ⟨cur, rest⟩
  · rfl
  · rw [absorbEntries, h cur rfl]
    rfl

theorem seqLeq_refl (a : U32) : seqLeq a a = true := by
  rw [seqLeq, BitVec.sub_self]
  rfl

theorem absorbEntries_copy {entry : TcpqEntry} {rest : List TcpqEntry}
    (hlt : seqLt entry.seq (entryEnd entry))
    (hstops : ∀ next ∈ rest.head?, seqLt next.seq (entryEnd entry) = false) (oooBytes : U32) :
    absorbEntries (entryEnd entry) (entry :: rest) oooBytes =
      (rest, oooBytes - entry.len, []) := by
  rw [absorbEntries, if_pos hlt, if_pos (seqLeq_refl _), absorbEntries_stops hstops]

/-- A new entry in front of what `insert_ooo_segment` leaves behind it is the
queue as it was only if it was there. -/
theorem insert_same_iff {entry : TcpqEntry} {cur : List TcpqEntry} (oooBytes : U32) :
    entry :: (absorbEntries (entryEnd entry) cur oooBytes).1 = cur ↔
      ∃ rest, cur = entry :: rest ∧ seqLt entry.seq (entryEnd entry) ∧
        ∀ next ∈ rest.head?, seqLt next.seq (entryEnd entry) = false := by
  constructor
  · intro h
    have hlen := absorbEntries_length (entryEnd entry) cur oooBytes
    rcases cur with - | ⟨first, rest⟩
    · cases h
    · obtain ⟨rfl, hrest⟩ := List.cons_eq_cons.mp h
      refine ⟨rest, rfl, ?_⟩
      rw [absorbEntries] at hrest
      rcases hlt : seqLt entry.seq (entryEnd entry) with - | -
      · rw [hlt, if_neg Bool.false_ne_true] at hrest
        have hlonger := congrArg List.length hrest
        rw [List.length_cons] at hlonger
        omega
      · rw [hlt, if_pos rfl, seqLeq_refl, if_pos rfl] at hrest
        exact ⟨rfl, (absorbEntries_same_iff _ _ _).mp hrest⟩
  · rintro ⟨rest, rfl, hlt, hstops⟩
    rw [absorbEntries_copy hlt hstops]

theorem insertOooSegment_undisturbed_iff (env : Env) (tcb : Tcb) (seqNum : U32) (data : List U8) :
    Undisturbed tcb (insertOooSegment env tcb seqNum data).tcb ↔
      NotQueued env tcb seqNum data := by
  have happend := List.takeWhile_append_dropWhile
    (p := fun entry => seqLeq (entryEnd entry) seqNum) (l := tcb.oooHead)
  simp only [insertOooSegment, NotQueued, AlreadyQueued, List.span_eq_takeWhile_dropWhile]
  generalize tcb.oooHead.takeWhile (fun entry => seqLeq (entryEnd entry) seqNum) = before
    at happend ⊢
  generalize tcb.oooHead.dropWhile (fun entry => seqLeq (entryEnd entry) seqNum) = cur
    at happend ⊢
  split
  · rename_i hfull
    exact iff_of_true (.refl tcb) (.inl hfull)
  · rename_i hroom
    generalize trimStart before.getLast? ⟨seqNum, BitVec.ofNat 32 data.length, data⟩ = trimmed
    rcases trimmed with - | entry
    · exact iff_of_true (.refl tcb) (.inr (.inr trivial))
    · simp only
      rcases halloc : env.queueAlloc with - | -
      · exact iff_of_true (.refl tcb) (.inr (.inl rfl))
      · rw [if_neg (by simp)]
        constructor
        · intro h
          have hqueue := h.oooHead
          rw [← happend] at hqueue
          exact .inr (.inr ((insert_same_iff _).mp (List.append_cancel_left hqueue)))
        · rintro (hfull | hnone | ⟨rest, rfl, hlt, hstops⟩)
          · exact absurd hfull hroom
          · cases hnone
          · rw [absorbEntries_copy hlt hstops, BitVec.sub_add_cancel, happend]
            exact .refl tcb

theorem drainOooQueue_shorter (queue : List TcpqEntry) (tcb : Tcb) :
    (drainOooQueue tcb queue).tcb.oooHead.length ≤ queue.length ∧
      ((drainOooQueue tcb queue).tcb.oooHead.length < queue.length ∨
        (drainOooQueue tcb queue).tcb.rcvNxt = tcb.rcvNxt) := by
  induction queue generalizing tcb with
  | nil => exact ⟨Nat.le_refl _, .inr rfl⟩
  | cons entry rest ih =>
      have hshorter : ∀ tcb : Tcb,
          (drainOooQueue tcb rest).tcb.oooHead.length < (entry :: rest).length := by
        intro tcb
        exact Nat.lt_succ_of_le (ih tcb).1
      simp only [drainOooQueue]
      split
      · exact ⟨Nat.le_of_lt (hshorter _), .inl (hshorter _)⟩
      · split
        · exact ⟨Nat.le_refl _, .inr rfl⟩
        · split
          · exact ⟨Nat.le_refl _, .inr rfl⟩
          · exact ⟨Nat.le_of_lt (hshorter _), .inl (hshorter _)⟩

theorem scheduleAck_receiver (tcb : Tcb) (gapFilled : Bool) :
    (scheduleAck tcb gapFilled).oooHead = tcb.oooHead ∧
      (scheduleAck tcb gapFilled).rcvNxt = tcb.rcvNxt := by
  rw [scheduleAck]
  split <;> exact ⟨rfl, rfl⟩

theorem acceptInOrder_disturbs {data : List U8} (hdata : data ≠ [])
    (hroom : data.length ≤ (recvBufSize - bufUsed tcb - tcb.oooBytes).toNat) :
    ¬ ((acceptInOrder tcb data).tcb.oooHead = tcb.oooHead ∧
      (acceptInOrder tcb data).tcb.rcvNxt = tcb.rcvNxt) := by
  obtain ⟨-, hdrain⟩ := drainOooQueue_shorter tcb.oooHead (acceptBytes tcb data)
  have hscheduled := scheduleAck_receiver
    (drainOooQueue (acceptBytes tcb data) tcb.oooHead).tcb
    ((drainOooQueue (acceptBytes tcb data) tcb.oooHead).tcb.rcvNxt ≠ (acceptBytes tcb data).rcvNxt)
  rintro ⟨hqueue, hnxt⟩
  replace hqueue := hscheduled.1.symm.trans hqueue
  replace hnxt := hscheduled.2.symm.trans hnxt
  rcases hdrain with hshorter | hsame
  · rw [hqueue] at hshorter
    exact absurd hshorter (Nat.lt_irrefl _)
  · have hlen : tcb.rcvNxt + BitVec.ofNat 32 data.length = tcb.rcvNxt := hsame.symm.trans hnxt
    have hpos := List.length_pos_of_ne_nil hdata
    have hlt := (recvBufSize - bufUsed tcb - tcb.oooBytes).isLt
    have hzero : BitVec.ofNat 32 data.length = 0#32 := by
      simpa using hlen
    have hmod := congrArg BitVec.toNat hzero
    rw [BitVec.toNat_ofNat, Nat.mod_eq_of_lt (by omega)] at hmod
    exact absurd hmod (by simpa using hdata)

/-- The payload of a segment leaves the receiver alone and no SYN-ACK is sent. -/
def DataQuiet (env : Env) (tcb : Tcb) (seg : TcpSegment) : Prop :=
  let data := payload seg
  let seqNum := seg.hdr.thSeq
  let duplicateBytes := if seqLt seqNum tcb.rcvNxt then tcb.rcvNxt - seqNum else 0
  let fresh := data.drop duplicateBytes.toNat
  if fresh = [] then NoSynAck env tcb
  else if seqNum + duplicateBytes = tcb.rcvNxt then
    ¬ fresh.length ≤ (recvBufSize - bufUsed tcb - tcb.oooBytes).toNat
  else NotQueued env tcb (seqNum + duplicateBytes) fresh ∧ NoSynAck env tcb

theorem insertOooSegment_eq (env : Env) (tcb : Tcb) (seqNum : U32) (data : List U8) :
    ∃ oooHead oooBytes, (insertOooSegment env tcb seqNum data).tcb =
      { tcb with oooHead, oooBytes } := by
  simp only [insertOooSegment]
  split
  · exact ⟨_, _, rfl⟩
  · split
    · exact ⟨_, _, rfl⟩
    · split <;> exact ⟨_, _, rfl⟩

theorem insertThenOutput_undisturbed_iff (hstate : tcb.state = .synRecv) (seqNum : U32)
    (data : List U8) :
    Undisturbed tcb
        (utcpOutput env.output (setAcknow (insertOooSegment env tcb seqNum data).tcb)).tcb ↔
      NotQueued env tcb seqNum data ∧ NoSynAck env tcb := by
  rw [← insertOooSegment_undisturbed_iff]
  obtain ⟨oooHead, oooBytes, hplaced⟩ := insertOooSegment_eq env tcb seqNum data
  rw [hplaced]
  have houtput := @setAcknow_undisturbed_iff env { tcb with oooHead, oooBytes } hstate
  have hsame : Undisturbed tcb { tcb with oooHead, oooBytes } ↔
      oooHead = tcb.oooHead ∧ oooBytes = tcb.oooBytes := by
    constructor
    · intro h
      exact ⟨h.oooHead, h.oooBytes⟩
    · rintro ⟨rfl, rfl⟩
      exact .refl tcb
  obtain ⟨_, _, _, _, _, _, _, heq⟩ :=
    utcpOutput_eq env.output (setAcknow { tcb with oooHead, oooBytes })
  rw [hsame]
  constructor
  · intro h
    have hqueue := h.oooHead
    have hbytes := h.oooBytes
    rw [heq] at hqueue hbytes
    obtain rfl : oooHead = tcb.oooHead := hqueue
    obtain rfl : oooBytes = tcb.oooBytes := hbytes
    exact ⟨⟨rfl, rfl⟩, houtput.mp h⟩
  · rintro ⟨⟨rfl, rfl⟩, hquiet⟩
    exact houtput.mpr hquiet

theorem tcb_mk (tcb : Tcb) (log : List Event) : (Out.mk tcb log).tcb = tcb := rfl

theorem placeData_undisturbed_iff (hstate : tcb.state = .synRecv) (seqNum : U32) {data : List U8}
    (hdata : data ≠ []) :
    Undisturbed tcb (placeData env tcb seqNum data).tcb ↔
      if seqNum = tcb.rcvNxt then
        ¬ data.length ≤ (recvBufSize - bufUsed tcb - tcb.oooBytes).toNat
      else NotQueued env tcb seqNum data ∧ NoSynAck env tcb := by
  rcases eq_or_ne seqNum tcb.rcvNxt with rfl | hne
  · rw [if_pos rfl]
    rcases Decidable.em (data.length ≤ (recvBufSize - bufUsed tcb - tcb.oooBytes).toNat) with
      hroom | hfull
    · rw [placeData_fits env hroom, tcb_mk]
      refine iff_of_false ?_ (not_not_intro hroom)
      intro h
      obtain ⟨_, _, _, _, _, _, _, heq⟩ := utcpOutput_eq env.output (acceptInOrder tcb data).tcb
      have hqueue := h.oooHead
      have hnxt := h.rcvNxt
      rw [heq] at hqueue hnxt
      exact acceptInOrder_disturbs hdata hroom ⟨hqueue, hnxt⟩
    · rw [placeData_full env hfull]
      exact iff_of_true (.refl tcb) hfull
  · rw [if_neg hne, placeData_other env data hne, tcb_mk]
    exact insertThenOutput_undisturbed_iff hstate seqNum data

theorem handleData_undisturbed_iff (hstate : tcb.state = .synRecv) :
    Undisturbed tcb (handleData env tcb seg).tcb ↔ DataQuiet env tcb seg := by
  simp only [handleData, DataQuiet]
  split
  · rename_i hbare
    rw [hbare, List.drop_nil, if_pos rfl]
    exact utcpOutput_undisturbed_iff hstate
  · rename_i hdata
    split
    · split
      · rename_i hrepeated
        rw [if_pos (List.drop_eq_nil_iff.mpr hrepeated)]
        exact setAcknow_undisturbed_iff hstate
      · rename_i hpart
        have hfresh : (payload seg).drop (tcb.rcvNxt - seg.hdr.thSeq).toNat ≠ [] := by
          rw [Ne, List.drop_eq_nil_iff]
          exact hpart
        rw [if_neg hfresh]
        exact placeData_undisturbed_iff hstate _ hfresh
    · have hseq : seg.hdr.thSeq + 0 = seg.hdr.thSeq := BitVec.add_zero _
      have hnone : (0 : U32).toNat = 0 := rfl
      rw [hnone, List.drop_zero, if_neg hdata, hseq]
      exact placeData_undisturbed_iff hstate _ hdata

/-- The segment counts as a duplicate ACK. -/
def CountsDuplicate (tcb : Tcb) (seg : TcpSegment) : Prop :=
  seg.hdr.thAck = tcb.sndUna ∧ ¬ getScaledWin tcb seg.hdr > tcb.sndWnd ∧
    payload seg = [] ∧ tcb.sndUna ≠ tcb.sndMax

/-- Congestion control does nothing on the duplicate ACK after 255 others. -/
def IgnoresDuplicates (tcb : Tcb) : Prop :=
  match tcb.ccOps with
  | .tahoe => True
  | .reno => False
  | .newReno => tcb.caState ≠ .recovery
  | .lstmReno => tcb.caState ≠ .recovery

/-- The acknowledgment of a segment changes nothing. -/
def AckQuiet (tcb : Tcb) (seg : TcpSegment) : Prop :=
  validAck tcb seg.hdr.thAck = false ∧
    (CountsDuplicate tcb seg → tcb.tDupacks = 255 ∧ IgnoresDuplicates tcb)

theorem recoveryDupAck_many (env : Env) (tcb : Tcb) :
    recoveryDupAck env tcb 255 =
      if tcb.caState = .recovery then utcpOutput env.burst { tcb with cwnd := tcb.cwnd + mss }
      else ⟨tcb, []⟩ := by
  rw [recoveryDupAck, if_neg (by decide)]
  simp

theorem congControl_ignores (h : IgnoresDuplicates tcb) :
    congControl env tcb (.dupAck 255) = some ⟨tcb, []⟩ := by
  rw [IgnoresDuplicates] at h
  rw [congControl]
  rcases hcc : tcb.ccOps with - | - | - | - <;> rw [hcc] at h
  · rfl
  · exact absurd h not_false
  · exact congrArg some ((recoveryDupAck_many env tcb).trans (if_neg h))
  · exact congrArg some
      ((lstmRecoveryDupAck_eq ..).trans ((recoveryDupAck_many env tcb).trans (if_neg h)))

theorem congControl_notices {cc : Out} (hcc : congControl env tcb (.dupAck 255) = some cc)
    (hcwnd : cc.tcb.cwnd = tcb.cwnd) : IgnoresDuplicates tcb := by
  have hburst : ∀ readings : Nat → Reading,
      (utcpOutput readings { tcb with cwnd := tcb.cwnd + mss }).tcb.cwnd ≠ tcb.cwnd := by
    intro readings
    obtain ⟨_, _, _, _, _, _, _, heq⟩ :=
      utcpOutput_eq readings { tcb with cwnd := tcb.cwnd + mss }
    rw [heq]
    simp [mss]
  have hmany : cc = recoveryDupAck env tcb 255 → tcb.caState ≠ .recovery := by
    intro heq hrecovery
    rw [heq, recoveryDupAck_many, if_pos hrecovery] at hcwnd
    exact hburst _ hcwnd
  rw [IgnoresDuplicates]
  rw [congControl] at hcc
  rcases hops : tcb.ccOps with - | - | - | - <;> rw [hops] at hcc
  · trivial
  · cases hcc
    exact hburst _ hcwnd
  · exact hmany (Option.some.inj hcc).symm
  · exact hmany ((Option.some.inj hcc).symm.trans (lstmRecoveryDupAck_eq ..))

/-- What the acknowledgment half has to leave alone for the whole to do so. -/
structure AckKept (tcb tcb' : Tcb) : Prop where
  sndUna : tcb'.sndUna = tcb.sndUna
  tDupacks : tcb'.tDupacks = tcb.tDupacks
  cwnd : tcb'.cwnd = tcb.cwnd

theorem acked_moves {cc : Out} (hack : validAck tcb seg.hdr.thAck)
    (hcc : congControl env (beforeAckEvent env tcb seg).tcb
      (.ack (seg.hdr.thAck - tcb.sndUna) (measureRtt env seg (acceptAck tcb seg.hdr)).2) = some cc) :
    cc.tcb.sndUna ≠ tcb.sndUna := by
  obtain ⟨_, _, _, _, _, _, _, hbefore⟩ := beforeAckEvent_eq env tcb seg
  have hreaction := congControl_reaction (by simp) hcc
  have hsame : cc.tcb.sndUna = seg.hdr.thAck := by
    have hunacked : (beforeAckEvent env tcb seg).tcb.sndUna = seg.hdr.thAck := by
      rw [hbefore]
      rfl
    cases hreaction with
    | change => exact hunacked
    | retransmit => exact hunacked
    | burst cwnd =>
        obtain ⟨_, _, _, _, _, _, _, heq⟩ :=
          utcpOutput_eq env.burst { (beforeAckEvent env tcb seg).tcb with cwnd }
        rw [heq]
        exact hunacked
  rw [hsame]
  intro hequal
  rw [validAck_self hequal] at hack
  cases hack

theorem recoveryDupAck_tDupacks (env : Env) (tcb : Tcb) (totalDups : U32) :
    (recoveryDupAck env tcb totalDups).tcb.tDupacks = tcb.tDupacks := by
  simp only [recoveryDupAck]
  split
  · split <;> rfl
  · split
    · obtain ⟨_, _, _, _, _, _, _, heq⟩ :=
        utcpOutput_eq env.burst { tcb with cwnd := tcb.cwnd + mss }
      rw [heq]
    · rfl

theorem congControl_dupAck_tDupacks {cc : Out} {totalDups : U32}
    (hcc : congControl env tcb (.dupAck totalDups) = some cc) :
    cc.tcb.tDupacks = tcb.tDupacks := by
  rw [congControl] at hcc
  rcases hops : tcb.ccOps with - | - | - | - <;> rw [hops] at hcc
  · simp only [tahoeCongControl] at hcc
    split at hcc <;> cases hcc <;> rfl
  · simp only [renoCongControl] at hcc
    split at hcc
    · cases hcc
      rfl
    · split at hcc
      · cases hcc
        obtain ⟨_, _, _, _, _, _, _, heq⟩ :=
          utcpOutput_eq env.burst { tcb with cwnd := tcb.cwnd + mss }
        rw [heq]
      · cases hcc
        rfl
  · rw [← Option.some.inj hcc]
    exact recoveryDupAck_tDupacks env tcb totalDups
  · rw [← Option.some.inj hcc]
    show (lstmRecoveryDupAck env tcb totalDups).tcb.tDupacks = tcb.tDupacks
    rw [lstmRecoveryDupAck_eq]
    exact recoveryDupAck_tDupacks env tcb totalDups

theorem dupacks_full {tDupacks : U8}
    (h : (if tDupacks < 255 then tDupacks + 1 else tDupacks) = tDupacks) : tDupacks = 255 := by
  split at h
  · simp at h
  · bv_omega

theorem handleAck_quiet {acked : Out} (h : handleAck env tcb seg = some acked)
    (hkept : AckKept tcb acked.tcb) :
    AckQuiet tcb seg ∧ ∃ sndWnd, acked = ⟨{ tcb with sndWnd }, []⟩ := by
  cases handleAck_cases h with
  | acked cc hack hcc =>
      have hmoves := acked_moves hack hcc
      exact absurd hkept.sndUna hmoves
  | window hack hsame hlarger =>
      refine ⟨⟨hack, ?_⟩, _, rfl⟩
      rintro ⟨-, hsmaller, -⟩
      exact absurd hlarger hsmaller
  | duplicate _ dupacks hack hsame hsmaller hbare hflight hdupacks hcc =>
      have hcount : dupacks = tcb.tDupacks :=
        (congControl_dupAck_tDupacks hcc).symm.trans hkept.tDupacks
      have hfull : tcb.tDupacks = 255 := dupacks_full (hdupacks.symm.trans hcount)
      obtain rfl : dupacks = 255 := hcount.trans hfull
      have hignores : IgnoresDuplicates { tcb with sndWnd := getScaledWin tcb seg.hdr, tDupacks := 255 } :=
        congControl_notices hcc hkept.cwnd
      refine ⟨⟨hack, fun _ => ⟨hfull, hignores⟩⟩, getScaledWin tcb seg.hdr, ?_⟩
      rw [← Option.some.inj ((congControl_ignores hignores).symm.trans hcc), ← hfull]
  | ignored hack hnot =>
      refine ⟨⟨hack, ?_⟩, tcb.sndWnd, rfl⟩
      rintro ⟨hsame, -, hbare, hflight⟩
      exact absurd ⟨hbare, hflight⟩ (hnot hsame)

theorem handleAck_of_quiet (h : AckQuiet tcb seg) :
    ∃ sndWnd, handleAck env tcb seg = some ⟨{ tcb with sndWnd }, []⟩ := by
  obtain ⟨hack, hduplicate⟩ := h
  rw [handleAck, if_neg (by rw [hack]; exact Bool.false_ne_true)]
  split
  · rename_i hsame
    simp only [handleSameAck]
    split
    · exact ⟨_, rfl⟩
    · rename_i hsmaller
      split
      · rename_i hdup
        obtain ⟨hfull, hignores⟩ := hduplicate ⟨hsame, hsmaller, hdup.1, hdup.2⟩
        have hstays : (if tcb.tDupacks < 255 then tcb.tDupacks + 1 else tcb.tDupacks) = 255 := by
          rw [hfull]
          rfl
        have hnothing := @congControl_ignores env
          { tcb with sndWnd := getScaledWin tcb seg.hdr, tDupacks := 255 } hignores
        rw [hstays]
        refine ⟨getScaledWin tcb seg.hdr, hnothing.trans ?_⟩
        rw [← hfull]
      · exact ⟨tcb.sndWnd, rfl⟩
  · exact ⟨tcb.sndWnd, rfl⟩

/-- The segments without a trace. -/
def Harmless (env : Env) (tcb : Tcb) (seg : TcpSegment) : Prop :=
  AckQuiet (processWindowOption env seg tcb) seg ∧ DataQuiet env tcb seg

theorem utcpInput_incomplete (hstate : tcb.state = .synRecv)
    (hnot : completesHandshake tcb seg.hdr = false) :
    utcpInput env tcb seg peer = handleReceivedData env tcb seg := by
  simp only [utcpInput, hstate, synRecvInput, hnot, if_neg Bool.false_ne_true]
  rcases hrest : handleReceivedData env tcb seg with - | out
  · simp [hrest]
  · simp [hrest]

theorem options_undisturbed (env : Env) (tcb : Tcb) (seg : TcpSegment) (sndWnd : U32) :
    Undisturbed tcb { processWindowOption env seg tcb with sndWnd } := by
  obtain ⟨_, _, _, _, heq⟩ := processWindowOption_eq env seg tcb
  rw [heq]
  exact ⟨rfl, rfl, rfl, rfl, rfl, rfl, rfl, rfl, rfl, rfl, rfl, rfl, rfl, rfl, rfl, rfl, rfl⟩

theorem dataQuiet_options (env : Env) (tcb : Tcb) (seg : TcpSegment) (sndWnd : U32) :
    DataQuiet env { processWindowOption env seg tcb with sndWnd } seg ↔ DataQuiet env tcb seg := by
  obtain ⟨_, _, _, _, heq⟩ := processWindowOption_eq env seg tcb
  rw [heq]
  exact Iff.rfl

theorem dataHalf_undisturbed_iff (hstate : tcb.state = .synRecv) (sndWnd : U32) :
    Undisturbed tcb
        (handleData env { processWindowOption env seg tcb with sndWnd } seg).tcb ↔
      DataQuiet env tcb seg := by
  have hoptions := options_undisturbed env tcb seg sndWnd
  have hdata : Undisturbed { processWindowOption env seg tcb with sndWnd } _ ↔
      DataQuiet env { processWindowOption env seg tcb with sndWnd } seg :=
    handleData_undisturbed_iff (hoptions.state.trans hstate)
  exact hoptions.congr_left.trans (hdata.trans (dataQuiet_options env tcb seg sndWnd))

/-- A segment that does not complete the handshake has no effect exactly when it
is harmless. -/
theorem undisturbed_iff (hstate : tcb.state = .synRecv)
    (hnot : completesHandshake tcb seg.hdr = false) :
    (∃ out, utcpInput env tcb seg peer = some out ∧ Undisturbed tcb out.tcb) ↔
      Harmless env tcb seg := by
  rw [utcpInput_incomplete hstate hnot]
  constructor
  · rintro ⟨out, hout, hkept⟩
    obtain ⟨acked, hacked, hrest⟩ := Option.bind_eq_some_iff.mp hout
    cases hrest
    have hoptions := options_undisturbed env tcb seg (processWindowOption env seg tcb).sndWnd
    have hback : AckKept (processWindowOption env seg tcb) acked.tcb := by
      obtain ⟨_, _, _, _, _, _, _, _, _, _, _, _, hdata⟩ := handleData_eq env acked.tcb seg
      have hwhole := hoptions.symm.trans hkept
      rw [hdata] at hwhole
      exact ⟨hwhole.sndUna, hwhole.tDupacks, hwhole.cwnd⟩
    obtain ⟨hquiet, sndWnd, rfl⟩ := handleAck_quiet hacked hback
    exact ⟨hquiet, (dataHalf_undisturbed_iff hstate sndWnd).mp hkept⟩
  · rintro ⟨hquiet, hdata⟩
    obtain ⟨sndWnd, hacked⟩ := @handleAck_of_quiet env _ _ hquiet
    refine ⟨_, ?_, (dataHalf_undisturbed_iff hstate sndWnd).mpr hdata⟩
    rw [handleReceivedData, hacked]
    rfl

/-- A segment of the client without payload. -/
def bareSegment (flags : U8) (ackNum : U32) : TcpSegment :=
  ⟨⟨5000, 80, 0, ackNum, 0x50, flags, 1000, 0, 0⟩, []⟩

/-- A listening block that has answered a SYN. -/
def answered : Tcb :=
  (utcpOutput (Env.still 0).output
    (acceptSyn (.still 0) (utcpListen (utcpBind utcpSocket 0 80)) (bareSegment thSyn 0) ⟨1, 2⟩)).tcb

theorem answered_state : answered.state = .synRecv := by
  decide +kernel

/-- Without memory for a SYN-ACK a stray segment has no effect. -/
theorem undisturbed_stray :
    ∃ out, utcpInput { Env.still 0 with output := fun _ => ⟨0, false⟩ } answered
        (bareSegment thAck 5) ⟨1, 2⟩ = some out ∧ Undisturbed answered out.tcb := by
  refine (undisturbed_iff answered_state (by decide +kernel)).mpr ⟨⟨by decide +kernel, ?_⟩, ?_⟩
  · rintro ⟨hsame, -⟩
    exact absurd hsame (by decide +kernel)
  · exact .inr rfl

/-- The SYN once more: another SYN-ACK, with a sequence number of its own. -/
theorem undisturbed_fails :
    ¬ ∀ (env : Env) (tcb : Tcb) (seg : TcpSegment) (peer : Peer), tcb.state = .synRecv →
      completesHandshake tcb seg.hdr = false →
      ∃ out, utcpInput env tcb seg peer = some out ∧ Undisturbed tcb out.tcb := by
  intro h
  obtain ⟨out, hout, hkept⟩ := h (.still 0) answered (bareSegment thSyn 0) ⟨1, 2⟩ answered_state
    (by decide +kernel)
  have hnxt : (utcpInput (.still 0) answered (bareSegment thSyn 0) ⟨1, 2⟩).map (·.tcb.sndNxt) =
      some (answered.sndNxt + 1) := by
    decide +kernel
  rw [hout, Option.map_some, Option.some.injEq, hkept.sndNxt] at hnxt
  simp at hnxt

end Utcp.Handshake
